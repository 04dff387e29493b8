import PaymentDrill.Proofs.Finiteness
import PaymentDrill.Proofs.Grammar
import PaymentDrill.Proofs.Nearest

/-!
# Literals of numbers

A number is taken apart into its sign, the digits of its integer and of its fraction,
and its exponent. Its value is said from these parts and not from how they are read: a
significand of 64 bits takes as many digits as fit, and what is left over shifts the
power of ten that it is multiplied by. An amount is any number whose value is finite,
and a word is an integer that is written with digits alone.
-/
namespace PaymentDrill.Json

section Digits

variable {m n : ℕ} {ds r : List Char}

lemma le_ofDigitChars (m : ℕ) (ds : List Char) : m ≤ Nat.ofDigitChars 10 ds m := by
  induction ds generalizing m with
  | nil => exact le_rfl
  | cons c ds ih =>
    rw [Nat.ofDigitChars_cons]
    exact (show m ≤ 10 * m + (c.toNat - '0'.toNat) by omega).trans (ih _)

lemma ofDigitChars_digit (c : Char) (ds : List Char) (m : ℕ) :
    Nat.ofDigitChars 10 (c :: ds) m = Nat.ofDigitChars 10 ds (m * 10 + digitValue c) := by
  rw [Nat.ofDigitChars_cons, mul_comm]
  rfl

/-- How many of the digits can be appended to a number that has to fit 64 bits. -/
def fit (m : ℕ) (ds : List Char) : ℕ :=
  Nat.findGreatest (fun k => Nat.ofDigitChars 10 (ds.take k) m < 2 ^ 64) ds.length

/-- The number with those digits. -/
def fitted (m : ℕ) (ds : List Char) : ℕ := Nat.ofDigitChars 10 (ds.take (fit m ds)) m

lemma fit_le (m : ℕ) (ds : List Char) : fit m ds ≤ ds.length := Nat.findGreatest_le _

lemma not_fits_of_fit_lt {k : ℕ} (h : fit m ds < k) (hk : k ≤ ds.length) :
    ¬ Nat.ofDigitChars 10 (ds.take k) m < 2 ^ 64 :=
  Nat.findGreatest_is_greatest (P := fun k => Nat.ofDigitChars 10 (ds.take k) m < 2 ^ 64) h hk

lemma fitted_lt (hm : m < 2 ^ 64) (ds : List Char) : fitted m ds < 2 ^ 64 :=
  Nat.findGreatest_spec (P := fun k => Nat.ofDigitChars 10 (ds.take k) m < 2 ^ 64)
    (Nat.zero_le ds.length) hm

lemma fit_eq_length (h : Nat.ofDigitChars 10 ds m < 2 ^ 64) : fit m ds = ds.length :=
  Nat.findGreatest_eq (by rwa [List.take_length])

lemma fitted_eq (h : Nat.ofDigitChars 10 ds m < 2 ^ 64) :
    fitted m ds = Nat.ofDigitChars 10 ds m := by
  rw [fitted, fit_eq_length h, List.take_length]

lemma fit_lt_length (hm : m < 2 ^ 64) (h : 2 ^ 64 ≤ Nat.ofDigitChars 10 ds m) :
    fit m ds < ds.length := by
  refine lt_of_le_of_ne (fit_le m ds) fun heq => ?_
  have hlt := fitted_lt hm ds
  rw [fitted, heq, List.take_length] at hlt
  exact hlt.not_ge h

lemma fit_cons (m : ℕ) (c : Char) (ds : List Char) : fit m (c :: ds) =
    if m * 10 + digitValue c < 2 ^ 64 then fit (m * 10 + digitValue c) ds + 1 else 0 := by
  split_ifs with hfit
  · have hlt := fitted_lt hfit ds
    refine Nat.findGreatest_eq_iff.mpr ⟨Nat.succ_le_succ (fit_le _ ds), fun _ => ?_, ?_⟩
    · rwa [List.take_succ_cons, ofDigitChars_digit]
    · intro j hj hle
      obtain ⟨k, rfl⟩ : ∃ k, j = k + 1 := ⟨j - 1, by omega⟩
      rw [List.take_succ_cons, ofDigitChars_digit]
      exact not_fits_of_fit_lt (Nat.lt_of_succ_lt_succ hj) (Nat.le_of_succ_le_succ hle)
  -- With the digits behind it a number only grows, so none of them fits after one that does not.
  · refine Nat.findGreatest_eq_iff.mpr ⟨Nat.zero_le _, fun h => absurd rfl h, ?_⟩
    intro j hj hle hlt
    obtain ⟨k, rfl⟩ : ∃ k, j = k + 1 := ⟨j - 1, by omega⟩
    rw [List.take_succ_cons, ofDigitChars_digit] at hlt
    exact hfit ((le_ofDigitChars _ _).trans_lt hlt)

/-- As many digits are taken as fit, whatever ends the run of them. -/
theorem takeDigits_run (m n : ℕ) (hds : ∀ c ∈ ds, c.isDigit = true)
    (hr : startsWithDigit r = false) :
    takeDigits m n (ds ++ r) = (fitted m ds, n + fit m ds, ds.drop (fit m ds) ++ r) := by
  induction ds generalizing m n with
  | nil =>
    cases r with
    | nil => rfl
    | cons c r =>
      have hc : ¬ c.isDigit = true := Bool.eq_false_iff.mp hr
      simp [takeDigits, hc, fitted, fit]
  | cons c ds ih =>
    have hc : c.isDigit = true := hds c List.mem_cons_self
    rw [List.cons_append, takeDigits, fitted, fit_cons]
    by_cases hfit : m * 10 + digitValue c < 2 ^ 64
    · rw [if_pos ⟨hc, hfit⟩, if_pos hfit, ih _ _ fun d hd => hds d (List.mem_cons_of_mem c hd),
        List.take_succ_cons, ofDigitChars_digit, List.drop_succ_cons, fitted, Nat.add_right_comm]
      rfl
    · rw [if_neg fun h => hfit h.2, if_neg hfit]
      rfl

/-- The digits of an exponent are its number if that fits 31 bits. -/
lemma takeExponent_fit (hds : ∀ c ∈ ds, c.isDigit = true)
    (h : Nat.ofDigitChars 10 ds n < 2 ^ 31) :
    takeExponent n ds = (some (Nat.ofDigitChars 10 ds n), []) := by
  induction ds generalizing n with
  | nil => rfl
  | cons c ds ih =>
    rw [ofDigitChars_digit] at h ⊢
    have hfit : n * 10 + digitValue c < Nat.pow 2 31 := (le_ofDigitChars _ ds).trans_lt h
    rw [takeExponent, if_pos (hds c List.mem_cons_self), if_pos hfit,
      ih (fun d hd => hds d (List.mem_cons_of_mem c hd)) h]

lemma takeExponent_large (hds : ∀ c ∈ ds, c.isDigit = true) (hn : n < 2 ^ 31)
    (h : 2 ^ 31 ≤ Nat.ofDigitChars 10 ds n) :
    ∃ rest, (∀ c ∈ rest, c.isDigit = true) ∧ takeExponent n ds = (none, rest) := by
  induction ds generalizing n with
  | nil => exact absurd hn h.not_gt
  | cons c ds ih =>
    have hds' : ∀ d ∈ ds, d.isDigit = true := fun d hd => hds d (List.mem_cons_of_mem c hd)
    rw [ofDigitChars_digit] at h
    rw [takeExponent, if_pos (hds c List.mem_cons_self)]
    split_ifs with hfit
    · exact ih hds' hfit h
    · exact ⟨ds, hds', rfl⟩

end Digits

/-- A number by its parts: whether a minus stands in front, the digits of the integer, those of the
fraction, of which there are none without a point, and whether the exponent is negative and its
digits, if there is one. -/
structure Literal where
  negative : Bool
  whole : List Char
  fraction : List Char
  exponent : Option (Bool × List Char)

/-- The text of a fraction. -/
def Pointed (ds t : List Char) : Prop := (ds = [] ∧ t = []) ∨ Digits ds ∧ t = '.' :: ds

/-- The text of an exponent. The sign may be left out if it is a plus. -/
def Scaled : Option (Bool × List Char) → List Char → Prop
  | none, t => t = []
  | some (down, ds), t => ∃ mark sign, (mark = 'e' ∨ mark = 'E') ∧
      (if down then sign = ['-'] else sign = [] ∨ sign = ['+']) ∧ Digits ds ∧
        t = mark :: (sign ++ ds)

namespace Literal

/-- How the number is written behind its sign. -/
def Body (l : Literal) (t : List Char) : Prop := ∃ f x, Whole l.whole ∧
  Pointed l.fraction f ∧ Scaled l.exponent x ∧ t = l.whole ++ (f ++ x)

/-- How the number is written. -/
def Writes (l : Literal) (t : List Char) : Prop := ∃ u, l.Body u ∧ t = withSign l.negative u

end Literal

lemma Pointed.fraction {ds t : List Char} (h : Pointed ds t) : Fraction t :=
  h.imp And.right fun hds => ⟨_, hds⟩

lemma Scaled.exponent {o : Option (Bool × List Char)} {t : List Char} (h : Scaled o t) :
    Exponent t := by
  rcases o with _ | ⟨down, ds⟩
  · exact .inl h
  · obtain ⟨mark, sign, hmark, hsign, hds, rfl⟩ := h
    refine .inr ⟨mark, sign ++ ds, hmark, ⟨sign, ds, ?_, hds, rfl⟩, rfl⟩
    cases down with
    | true => exact .inr (.inr hsign)
    | false => exact hsign.imp_right .inl

lemma Power.exists_scaled {p : List Char} {mark : Char} (hmark : mark = 'e' ∨ mark = 'E')
    (h : Power p) : ∃ down ds, Scaled (some (down, ds)) (mark :: p) := by
  obtain ⟨sign, ds, rfl | rfl | rfl, hds, rfl⟩ := h
  · exact ⟨false, _, mark, [], hmark, .inl rfl, hds, rfl⟩
  · exact ⟨false, _, mark, ['+'], hmark, .inr rfl, hds, rfl⟩
  · exact ⟨true, _, mark, ['-'], hmark, rfl, hds, rfl⟩

lemma Whole.exists_cons {w : List Char} (h : Whole w) : ∃ c ds, w = c :: ds ∧
    (∀ d ∈ c :: ds, d.isDigit = true) ∧ (c = '0' → ds = []) := by
  rcases h with rfl | ⟨⟨hne, hall⟩, hzero⟩
  · exact ⟨'0', [], rfl, by simp, fun _ => rfl⟩
  · obtain ⟨c, ds, rfl⟩ := List.exists_cons_of_ne_nil hne
    exact ⟨c, ds, rfl, hall, fun hc => absurd (congrArg some hc) hzero⟩

/-- Every numeral has its parts. -/
lemma Numeral.exists_body {t : List Char} (negative : Bool) (h : Numeral t) :
    ∃ l : Literal, l.negative = negative ∧ l.Body t := by
  obtain ⟨w, u, hw, ⟨f, x, hf, hx, rfl⟩, rfl⟩ := h
  obtain ⟨ds, hds⟩ : ∃ ds, Pointed ds f := by
    rcases hf with rfl | ⟨ds, hds⟩
    · exact ⟨[], .inl ⟨rfl, rfl⟩⟩
    · exact ⟨ds, .inr hds⟩
  obtain ⟨o, ho⟩ : ∃ o, Scaled o x := by
    rcases hx with rfl | ⟨mark, p, hmark, hp, rfl⟩
    · exact ⟨none, rfl⟩
    · obtain ⟨down, es, hes⟩ := hp.exists_scaled hmark
      exact ⟨some (down, es), hes⟩
  exact ⟨⟨negative, w, ds, o⟩, rfl, f, x, hw, hds, ho, rfl⟩

/-- A significand by an exponent and a further power of ten; none when it is too large. An exponent
that does not fit 31 bits leaves nothing of the significand, or too much. -/
def scaledBy? (m : ℕ) (e : ℤ) : Option (Bool × List Char) → Option Binary64
  | none => scale? m e
  | some (down, ds) =>
    if Nat.ofDigitChars 10 ds 0 < 2 ^ 31 then
      scale? m (clampExponent (if down then e - Nat.ofDigitChars 10 ds 0
        else e + Nat.ofDigitChars 10 ds 0))
    else if m ≠ 0 ∧ ¬ down then none else some .zero

/-- A value with the sign that stands in front of it. -/
def withSignOf (negative : Bool) (x : Binary64) : Binary64 := if negative then x.neg else x

/-- An integer that fits 64 bits. Negative zero is no integer, nor is what fits no signed ones. -/
def signedInteger (negative : Bool) (m : ℕ) : Number :=
  if ¬ negative then .integer m
  else if m = 0 ∨ Nat.pow 2 63 < m then .float (Binary64.ofNat m).neg
  else .integer (-m)

namespace Literal

/-- As many digits as fit 64 bits. Behind the point, digits are tried anew even if some of the
integer did not fit. -/
def significand (l : Literal) : ℕ := fitted (fitted 0 l.whole) l.fraction

/-- The power of ten of the significand: digits of the integer that did not fit count up, digits of
the fraction that did count down, and other digits of the fraction do not count. -/
def scale (l : Literal) : ℤ :=
  l.whole.length - fit 0 l.whole - fit (fitted 0 l.whole) l.fraction

/-- The value without its sign; none when it is too large. -/
def magnitude? (l : Literal) : Option Binary64 := scaledBy? l.significand l.scale l.exponent

/-- The value, which is infinite when it is too large. -/
def toBinary64 (l : Literal) : Binary64 :=
  match l.magnitude? with
  | none => .infinite l.negative
  | some x => withSignOf l.negative x

/-- What a number is read as. It stays an integer while it is written and small enough as one. -/
def number? (l : Literal) : Option Number :=
  if l.fraction = [] ∧ l.exponent = none ∧ Nat.ofDigitChars 10 l.whole 0 < 2 ^ 64 then
    some (signedInteger l.negative (Nat.ofDigitChars 10 l.whole 0))
  else l.magnitude?.map fun x => .float (withSignOf l.negative x)

end Literal

section Reading

variable {negative : Bool} {m : ℕ} {e : ℤ} {ds s t : List Char} {o : Option (Bool × List Char)}

/-- A value that a number is read as, with nothing left behind it. -/
def floatAlone (negative : Bool) (x? : Option Binary64) : Option (Number × List Char) :=
  x?.map fun x => (.float (withSignOf negative x), [])

lemma toOption_finish : (finish negative m e s).toOption =
    (scale? m e).map fun x => (.float (withSignOf negative x), s) := by
  unfold finish
  cases scale? m e with
  | none => rfl
  | some x => rfl

lemma toOption_exponentPart {down : Bool} {sign : List Char}
    (hsign : if down then sign = ['-'] else sign = [] ∨ sign = ['+']) (hds : Digits ds) :
    (exponentPart negative m e (sign ++ ds)).toOption =
      floatAlone negative (scaledBy? m e (some (down, ds))) := by
  -- What is too small to be written is what zero is scaled to.
  have hzero : scale? 0 0 = some .zero := by decide +kernel
  obtain ⟨hne, hall⟩ := hds
  obtain ⟨c, ds, rfl⟩ := List.exists_cons_of_ne_nil hne
  have hc : c.isDigit = true := hall c List.mem_cons_self
  have hsplit : splitSign (sign ++ c :: ds) = (down, c :: ds) := by
    cases down with
    | true =>
      obtain rfl : sign = ['-'] := hsign
      rfl
    | false =>
      obtain rfl | rfl : sign = [] ∨ sign = ['+'] := hsign
      · exact splitSign_digit hc ds
      · rfl
  have hall' : ∀ d ∈ ds, d.isDigit = true := fun d hd => hall d (List.mem_cons_of_mem c hd)
  have hnumber := ofDigitChars_digit c ds 0
  rw [Nat.zero_mul, Nat.zero_add] at hnumber
  rw [exponentPart_eq, hsplit, scaledBy?, hnumber]
  dsimp only
  rw [if_neg (not_not.mpr hc)]
  rcases lt_or_ge (Nat.ofDigitChars 10 ds (digitValue c)) (2 ^ 31) with hfit | hlarge
  · rw [takeExponent_fit hall' hfit, if_pos hfit]
    exact toOption_finish
  · have hsmall : digitValue c < 2 ^ 31 := (digitValue_lt hc).trans (by decide)
    obtain ⟨rest, hrest, htake⟩ := takeExponent_large hall' hsmall hlarge
    have hdrop : rest.dropWhile Char.isDigit = [] := List.dropWhile_eq_nil_iff.mpr hrest
    rw [htake, if_neg hlarge.not_gt]
    dsimp only
    by_cases hbig : m ≠ 0 ∧ ¬down
    · rw [if_pos hbig, if_pos hbig]
      rfl
    · rw [if_neg hbig, if_neg hbig, toOption_finish, hzero, hdrop]
      rfl

lemma toOption_exponentOrEnd (h : Scaled o t) :
    (exponentOrEnd negative m e t).toOption = floatAlone negative (scaledBy? m e o) := by
  rcases o with _ | ⟨down, ds⟩
  · obtain rfl : t = [] := h
    exact toOption_finish
  · obtain ⟨mark, sign, rfl | rfl, hsign, hds, rfl⟩ := h
    · exact toOption_exponentPart hsign hds
    · exact toOption_exponentPart hsign hds

lemma toOption_fractionPart (hds : Digits ds) (h : Scaled o t) :
    (fractionPart negative m e (ds ++ t)).toOption =
      floatAlone negative (scaledBy? (fitted m ds) (e - fit m ds) o) := by
  have hend : startsWithDigit t = false := by
    simpa using h.exponent.startsWithDigit ends_nil
  unfold fractionPart
  rw [takeDigits_run m 0 hds.2 hend, Nat.zero_add]
  dsimp only
  by_cases hall : fit m ds = ds.length
  · have hcount : ds.length ≠ 0 := fun hnil => hds.1 (List.length_eq_zero_iff.mp hnil)
    rw [hall, List.drop_length, List.nil_append, hend, if_neg Bool.false_ne_true, if_neg hcount]
    exact toOption_exponentOrEnd h
  · have hleft : ds.drop (fit m ds) ≠ [] := by
      rw [Ne, List.drop_eq_nil_iff]
      exact fun hle => hall ((fit_le m ds).antisymm hle)
    have hdigits : ∀ c ∈ ds.drop (fit m ds), c.isDigit = true :=
      fun c hc => hds.2 c (List.mem_of_mem_drop hc)
    rw [startsWithDigit_digits ⟨hleft, hdigits⟩, if_pos rfl, dropWhile_digits hdigits hend]
    exact toOption_exponentOrEnd h

variable {l : Literal} {f : List Char}

lemma toOption_afterInteger (hf : Pointed ds f) (h : Scaled o t) :
    (afterInteger negative m (f ++ t)).toOption =
      if ds = [] ∧ o = none then some (signedInteger negative m, [])
      else floatAlone negative (scaledBy? (fitted m ds) (0 - fit m ds) o) := by
  rcases hf with ⟨rfl, rfl⟩ | ⟨hds, rfl⟩
  · rcases o with _ | ⟨down, es⟩
    · obtain rfl : t = [] := h
      rw [if_pos ⟨rfl, rfl⟩, List.nil_append]
      unfold afterInteger signedInteger
      dsimp only
      split_ifs <;> rfl
    · obtain ⟨mark, sign, rfl | rfl, hsign, hes, rfl⟩ := h
      · exact toOption_exponentPart hsign hes
      · exact toOption_exponentPart hsign hes
  · rw [if_neg (fun hnil => hds.1 hnil.1)]
    exact toOption_fractionPart hds h

lemma toOption_afterLong (hf : Pointed ds f) (h : Scaled o t) :
    (afterLong negative m e (f ++ t)).toOption =
      floatAlone negative (scaledBy? (fitted m ds) (e - fit m ds) o) := by
  rcases hf with ⟨rfl, rfl⟩ | ⟨hds, rfl⟩
  · have hpoint : ∀ r, [] ++ t ≠ '.' :: r := by
      rintro r heq
      rcases h.exponent with rfl | ⟨mark, p, rfl | rfl, -, rfl⟩ <;> cases heq
    have hlong : afterLong negative m e ([] ++ t) = exponentOrEnd negative m e t := by
      rw [afterLong]
      · rfl
      · exact hpoint
    have hscale : e - (fit m [] : ℕ) = e := sub_zero e
    rw [hlong, hscale]
    exact toOption_exponentOrEnd h
  · exact toOption_fractionPart hds h

section Integer

variable {c : Char} {r : List Char}

lemma readNumber_fit (hall : ∀ d ∈ c :: ds, d.isDigit = true) (hzero : c = '0' → ds = [])
    (hr : startsWithDigit r = false) (h : Nat.ofDigitChars 10 (c :: ds) 0 < 2 ^ 64) :
    readNumber negative (c :: ds ++ r) =
      afterInteger negative (Nat.ofDigitChars 10 (c :: ds) 0) r := by
  rw [List.cons_append, readNumber]
  by_cases hc : c = '0'
  · subst hc
    obtain rfl := hzero rfl
    rw [if_pos rfl, List.nil_append, hr, if_neg Bool.false_ne_true]
    rfl
  · have hds : ∀ d ∈ ds, d.isDigit = true := fun d hd => hall d (List.mem_cons_of_mem c hd)
    rw [ofDigitChars_digit, Nat.zero_mul, Nat.zero_add] at h ⊢
    rw [if_neg hc, if_neg (not_not.mpr (hall c List.mem_cons_self)), takeDigits_run _ _ hds hr,
      fitted_eq h, fit_eq_length h, List.drop_length]
    dsimp only
    rw [List.nil_append, hr, if_neg Bool.false_ne_true]

lemma readNumber_long (hall : ∀ d ∈ c :: ds, d.isDigit = true) (hzero : c = '0' → ds = [])
    (hr : startsWithDigit r = false) (h : 2 ^ 64 ≤ Nat.ofDigitChars 10 (c :: ds) 0) :
    readNumber negative (c :: ds ++ r) = afterLong negative (fitted 0 (c :: ds))
      ((c :: ds).length - fit 0 (c :: ds)) r := by
  have hcd : c.isDigit = true := hall c List.mem_cons_self
  have hsmall : digitValue c < 2 ^ 64 := (digitValue_lt hcd).trans (by decide)
  have hds : ∀ d ∈ ds, d.isDigit = true := fun d hd => hall d (List.mem_cons_of_mem c hd)
  rw [ofDigitChars_digit, Nat.zero_mul, Nat.zero_add] at h
  -- A zero in front stands alone, and fits.
  have hc : c ≠ '0' := by
    rintro rfl
    obtain rfl := hzero rfl
    exact absurd hsmall h.not_gt
  have hfirst : fit 0 (c :: ds) = fit (digitValue c) ds + 1 := by
    rw [fit_cons, Nat.zero_mul, Nat.zero_add, if_pos hsmall]
  have hnumber : fitted 0 (c :: ds) = fitted (digitValue c) ds := by
    rw [fitted, hfirst, List.take_succ_cons, ofDigitChars_digit, Nat.zero_mul, Nat.zero_add, fitted]
  have hlt := fit_lt_length hsmall h
  have hleft : ds.drop (fit (digitValue c) ds) ≠ [] := by
    rw [Ne, List.drop_eq_nil_iff]
    exact hlt.not_ge
  have hdigits : ∀ d ∈ ds.drop (fit (digitValue c) ds), d.isDigit = true :=
    fun d hd => hds d (List.mem_of_mem_drop hd)
  have hcount : (((c :: ds).length : ℤ) - fit 0 (c :: ds)) =
      (ds.drop (fit (digitValue c) ds)).length := by
    rw [hfirst, List.length_drop, List.length_cons, Nat.cast_sub hlt.le]
    omega
  rw [hnumber, hcount, List.cons_append, readNumber, if_neg hc, if_neg (not_not.mpr hcd),
    takeDigits_run _ _ hds hr]
  dsimp only
  rw [startsWithDigit_digits ⟨hleft, hdigits⟩, if_pos rfl, takeWhile_digits hdigits hr,
    dropWhile_digits hdigits hr]
  rfl

end Integer

/-- A number is read as what its parts say. -/
theorem toOption_readNumber (h : l.Body t) :
    (readNumber l.negative t).toOption = l.number?.map fun n => (n, []) := by
  obtain ⟨f, x, hw, hf, hx, rfl⟩ := h
  have hend : startsWithDigit (f ++ x) = false := by
    have htail : Tail (f ++ x) := ⟨f, x, hf.fraction, hx.exponent, rfl⟩
    simpa using htail.startsWithDigit ends_nil
  obtain ⟨c, ds, hwhole, hall, hzero⟩ := hw.exists_cons
  unfold Literal.number? Literal.magnitude? Literal.significand Literal.scale
  rw [hwhole]
  rcases lt_or_ge (Nat.ofDigitChars 10 (c :: ds) 0) (2 ^ 64) with hfit | hlong
  · rw [readNumber_fit hall hzero hend hfit, toOption_afterInteger hf hx,
      fit_eq_length hfit, fitted_eq hfit, sub_self]
    by_cases hplain : l.fraction = [] ∧ l.exponent = none
    · rw [if_pos hplain, if_pos ⟨hplain.1, hplain.2, hfit⟩]
      rfl
    · rw [if_neg hplain, if_neg fun h => hplain ⟨h.1, h.2.1⟩, Option.map_map]
      rfl
  · rw [readNumber_long hall hzero hend hlong, toOption_afterLong hf hx,
      if_neg fun h => hlong.not_gt h.2.2, Option.map_map]
    rfl

/-- The text of a number, and what it is read as. -/
theorem signed_iff {n : Number} : Signed t n ↔ ∃ l : Literal, l.Writes t ∧ l.number? = some n := by
  have halone {negative : Bool} {u : List Char} (h : readNumber negative u = .ok (n, [])) :
      ∃ l : Literal, l.negative = negative ∧ l.Body u ∧ l.number? = some n := by
    obtain ⟨l, rfl, hl⟩ := (numeral_of_readNumber h).exists_body negative
    have hnumber := toOption_readNumber hl
    rw [h] at hnumber
    obtain ⟨n', hn', heq⟩ := Option.map_eq_some_iff.mp hnumber.symm
    obtain ⟨rfl, -⟩ := Prod.mk.inj heq
    exact ⟨l, rfl, hl, hn'⟩
  constructor
  · rintro (h | ⟨u, h, rfl⟩)
    · obtain ⟨l, hnegative, hl, hn⟩ := halone h
      exact ⟨l, ⟨t, hl, by rw [hnegative]; rfl⟩, hn⟩
    · obtain ⟨l, hnegative, hl, hn⟩ := halone h
      exact ⟨l, ⟨u, hl, by rw [hnegative]; rfl⟩, hn⟩
  · rintro ⟨l, ⟨u, hl, rfl⟩, hn⟩
    have hread := toOption_readNumber hl
    rw [hn, Option.map_some] at hread
    rcases hres : readNumber l.negative u with fault | result
    · rw [hres] at hread
      cases hread
    · rw [hres] at hread
      obtain rfl := Option.some.inj hread
      cases hnegative : l.negative with
      | false =>
        rw [hnegative] at hres
        exact .inl hres
      | true =>
        rw [hnegative] at hres
        exact .inr ⟨u, hres, rfl⟩

end Reading

section Values

variable {l : Literal} {t : List Char} {m : ℕ} {x : Binary64}

lemma isFinite_withSignOf (negative : Bool) (x : Binary64) :
    (withSignOf negative x).isFinite = x.isFinite := by
  cases negative with
  | false => rfl
  | true => exact Binary64.isFinite_neg x

lemma Literal.significand_lt (l : Literal) : l.significand < 2 ^ 64 :=
  fitted_lt (fitted_lt (by decide) _) _

/-- A value that is not too large is finite. -/
lemma Literal.isFinite_of_magnitude? (h : l.magnitude? = some x) : x.isFinite = true := by
  unfold Literal.magnitude? scaledBy? at h
  split at h
  · exact isFinite_of_scale? l.significand_lt h
  · split_ifs at h
    · exact isFinite_of_scale? l.significand_lt h
    · exact isFinite_of_scale? l.significand_lt h
    · obtain rfl := Option.some.inj h
      rfl

lemma Literal.isFinite_toBinary64 : l.toBinary64.isFinite = l.magnitude?.isSome := by
  unfold Literal.toBinary64
  cases h : l.magnitude? with
  | none => rfl
  | some x => exact (isFinite_withSignOf _ x).trans (Literal.isFinite_of_magnitude? h)

/-- Without a power of ten, a significand is rounded once. -/
lemma scale?_zero (hm : m < 2 ^ 64) : scale? m 0 = some (Binary64.ofNat m) := by
  have hfin := isFinite_ofNat hm
  have hone : powerOfTen 0 = .finite false (2 ^ 52) (-52) (by decide) := by decide +kernel
  have hmul : (Binary64.ofNat m).mul (powerOfTen 0) = Binary64.ofNat m := by
    rw [Binary64.mul_eq_nearest hfin (isFinite_powerOfTen (by decide)), hone,
      Binary64.modulus_finite]
    calc Binary64.nearest ((Binary64.ofNat m).isNegative != false)
          ((Binary64.ofNat m).modulus * ((2 ^ 52 : ℕ) * 2 ^ (-52 : ℤ)))
        = Binary64.nearest (Binary64.ofNat m).isNegative (Binary64.ofNat m).modulus := by
          rw [Bool.bne_false]; norm_num
      _ = Binary64.ofNat m := Binary64.nearest_modulus hfin
  have hnot : (Binary64.ofNat m).isInfinite = false := by
    obtain ⟨s, n, e, hc, heq⟩ := Binary64.isFinite_iff.mp hfin
    rw [heq]
    rfl
  unfold scale?
  simp [hmul, hnot]

lemma neg_ofRatio (s : Bool) (num den : ℕ) :
    (Binary64.ofRatio s num den).neg = Binary64.ofRatio (!s) num den := by
  unfold Binary64.ofRatio Binary64.ofParts
  dsimp only
  split_ifs <;> rfl

lemma toBinary64_signedInteger (negative : Bool) (m : ℕ) :
    (signedInteger negative m).toBinary64 = withSignOf negative (Binary64.ofNat m) := by
  cases negative with
  | false =>
    have hsign : ¬(m : ℤ) < 0 := by omega
    simp [signedInteger, Number.toBinary64, withSignOf, Binary64.ofNat, hsign]
  | true =>
    rw [signedInteger, if_neg (by simp), withSignOf, if_pos rfl]
    split_ifs with hspecial
    · rfl
    · have hpos : 0 < m := by omega
      simp [Number.toBinary64, Binary64.ofNat, neg_ofRatio, hpos]

/-- A number becomes the value of its literal, be it an integer or not. -/
lemma Literal.map_number? (l : Literal) :
    l.number?.map Number.toBinary64 = l.magnitude?.map (withSignOf l.negative) := by
  unfold Literal.number?
  split_ifs with hplain
  · obtain ⟨hfraction, hexponent, hfit⟩ := hplain
    have hsignificand : l.significand = Nat.ofDigitChars 10 l.whole 0 := by
      rw [Literal.significand, fitted_eq hfit, hfraction]
      rfl
    have hscale : l.scale = 0 := by
      rw [Literal.scale, fit_eq_length hfit, hfraction, sub_self]
      rfl
    rw [Option.map_some, toBinary64_signedInteger, Literal.magnitude?, hexponent, scaledBy?, hscale,
      hsignificand, scale?_zero hfit, Option.map_some]
  · rw [Option.map_map]
    rfl

/-- A number whose value is finite. -/
def Amount : Grammar Binary64 := fun t x =>
  ∃ l : Literal, l.Writes t ∧ l.toBinary64 = x ∧ x.isFinite = true

/-- An amount is read from exactly the numbers that are not too large. -/
theorem real_eq : Real = Amount := by
  ext t x
  have hvalue (l : Literal) : l.number?.map Number.toBinary64 = some x ↔
      l.toBinary64 = x ∧ x.isFinite = true := by
    rw [l.map_number?]
    constructor
    · intro h
      obtain ⟨y, hy, rfl⟩ := Option.map_eq_some_iff.mp h
      rw [isFinite_withSignOf, Literal.toBinary64, hy]
      exact ⟨rfl, l.isFinite_of_magnitude? hy⟩
    · rintro ⟨rfl, hfin⟩
      rw [Literal.isFinite_toBinary64] at hfin
      obtain ⟨y, hy⟩ := Option.isSome_iff_exists.mp hfin
      rw [Literal.toBinary64, hy]
      rfl
  constructor
  · rintro ⟨n, hn, rfl⟩
    obtain ⟨l, hl, hnumber⟩ := signed_iff.mp hn
    exact ⟨l, hl, (hvalue l).mp (by rw [hnumber]; rfl)⟩
  · rintro ⟨l, hl, hx⟩
    obtain ⟨n, hn, rfl⟩ := Option.map_eq_some_iff.mp ((hvalue l).mpr hx)
    exact ⟨n, signed_iff.mpr ⟨l, hl, hn⟩, rfl⟩

/-- The last digit of the integer does not fit, but the one behind the point does. -/
example : (⟨false, "18446744073709551616".toList, ['5'], none⟩ : Literal).significand =
    18446744073709551615 := by decide +kernel

/-- An integer that is written with digits alone and fits 32 bits. -/
def Unsigned : Grammar UInt32 := fun t w => Whole t ∧ Nat.ofDigitChars 10 t 0 = w.toNat

/-- What is read as an integer and is not negative has neither a sign nor a fraction nor an
exponent. -/
lemma Literal.digits_of_integer {n : ℤ} (hl : l.Writes t) (h : l.number? = some (.integer n))
    (hn : 0 ≤ n) : Whole t ∧ n = Nat.ofDigitChars 10 t 0 := by
  obtain ⟨u, ⟨f, e, hw, hf, he, rfl⟩, rfl⟩ := hl
  unfold Literal.number? at h
  split_ifs at h with hplain
  · obtain ⟨hfraction, hexponent, -⟩ := hplain
    have hf' : f = [] := hf.elim And.right fun hds => absurd hfraction hds.1.1
    have he' : e = [] := by rwa [hexponent] at he
    have hinteger := Option.some.inj h
    unfold signedInteger at hinteger
    cases hnegative : l.negative with
    | false =>
      rw [hnegative, if_pos Bool.false_ne_true] at hinteger
      rw [hf', he', List.nil_append, List.append_nil]
      exact ⟨hw, (Number.integer.inj hinteger).symm⟩
    | true =>
      rw [hnegative, if_neg (not_not.mpr rfl)] at hinteger
      split_ifs at hinteger with hspecial
      have hneg := Number.integer.inj hinteger
      omega
  · obtain ⟨y, -, hy⟩ := Option.map_eq_some_iff.mp h
    cases hy

/-- A word is read from exactly the integers that are written with digits alone and fit. -/
theorem word_eq : Word = Unsigned := by
  ext t w
  constructor
  · rintro ⟨n, hn, hlow, hhigh, rfl⟩
    obtain ⟨l, hl, hnumber⟩ := signed_iff.mp hn
    obtain ⟨hwhole, rfl⟩ := l.digits_of_integer hl hnumber hlow
    have hlt : Nat.ofDigitChars 10 t 0 < 2 ^ 32 := by exact_mod_cast hhigh
    rw [Int.toNat_natCast]
    exact ⟨hwhole, (UInt32.toNat_ofNat_of_lt' hlt).symm⟩
  · rintro ⟨hwhole, hw⟩
    have hlt : w.toNat < 2 ^ 32 := w.toNat_lt
    have hfit : Nat.ofDigitChars 10 t 0 < 2 ^ 64 := hw ▸ hlt.trans (by decide)
    refine ⟨w.toNat, signed_iff.mpr ⟨⟨false, t, [], none⟩, ?_, ?_⟩, by omega, ?_, by simp⟩
    · exact ⟨t, ⟨[], [], hwhole, .inl ⟨rfl, rfl⟩, rfl, by simp⟩, rfl⟩
    · rw [Literal.number?, if_pos ⟨rfl, rfl, hfit⟩, hw]
      rfl
    · exact_mod_cast hlt

end Values

end PaymentDrill.Json
