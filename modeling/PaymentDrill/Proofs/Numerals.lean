import Mathlib.Data.List.Basic
import PaymentDrill.Json.Value
import PaymentDrill.Proofs.Tokens

/-!
# Numerals

The form of a number behind its sign: an integer without needless zeros, then perhaps a
fraction, then perhaps an exponent. Both readers of numbers, the one that converts and
the one that passes over, take exactly such a numeral. What it becomes depends on the
numeral alone and not on what follows it, as long as nothing follows that could be more
of it.
-/
namespace PaymentDrill.Json

/-- One digit at least, and nothing but digits. -/
def Digits (ds : List Char) : Prop := ds ≠ [] ∧ ∀ c ∈ ds, c.isDigit = true

/-- An integer is zero or starts with another digit. -/
def Whole (t : List Char) : Prop := t = ['0'] ∨ Digits t ∧ t.head? ≠ some '0'

def Fraction (t : List Char) : Prop := t = [] ∨ ∃ ds, Digits ds ∧ t = '.' :: ds

/-- An exponent behind its mark. -/
def Power (t : List Char) : Prop :=
  ∃ sign ds, (sign = [] ∨ sign = ['+'] ∨ sign = ['-']) ∧ Digits ds ∧ t = sign ++ ds

def Exponent (t : List Char) : Prop :=
  t = [] ∨ ∃ mark p, (mark = 'e' ∨ mark = 'E') ∧ Power p ∧ t = mark :: p

/-- What can follow an integer in a numeral. -/
def Tail (t : List Char) : Prop := ∃ f e, Fraction f ∧ Exponent e ∧ t = f ++ e

/-- A number behind its sign. -/
def Numeral (t : List Char) : Prop := ∃ w u, Whole w ∧ Tail u ∧ t = w ++ u

/-- Nothing that a numeral in front of it could go on with. -/
def Ends (r : List Char) : Prop :=
  ∀ c ∈ r.head?, c.isDigit = false ∧ c ≠ '.' ∧ c ≠ 'e' ∧ c ≠ 'E'

variable {c : Char} {ds r s t : List Char}

lemma ends_nil : Ends [] := by simp [Ends]

lemma Ends.startsWithDigit (h : Ends r) : startsWithDigit r = false := by
  cases r with
  | nil => rfl
  | cons c r => exact (h c rfl).1

lemma Exponent.startsWithDigit (ht : Exponent t) (hr : Ends r) :
    startsWithDigit (t ++ r) = false := by
  rcases ht with rfl | ⟨mark, p, rfl | rfl, hp, rfl⟩
  · exact hr.startsWithDigit
  · rfl
  · rfl

lemma Tail.startsWithDigit (ht : Tail t) (hr : Ends r) : startsWithDigit (t ++ r) = false := by
  obtain ⟨f, e, rfl | ⟨ds, hds, rfl⟩, he, rfl⟩ := ht
  · exact he.startsWithDigit hr
  · rfl

lemma Exponent.tail (h : Exponent t) : Tail t := ⟨[], t, .inl rfl, h, rfl⟩

lemma digits_cons (hc : c.isDigit = true) (hds : ∀ d ∈ ds, d.isDigit = true) : Digits (c :: ds) :=
  ⟨by simp, by simpa [hc] using hds⟩

lemma Digits.append (hds : ∀ c ∈ ds, c.isDigit = true) (ht : Digits t) : Digits (ds ++ t) := by
  refine ⟨by simp [ht.1], fun c hc => ?_⟩
  exact (List.mem_append.mp hc).elim (hds c) (ht.2 c)

lemma startsWithDigit_digits (h : Digits ds) (r : List Char) :
    startsWithDigit (ds ++ r) = true := by
  obtain ⟨hne, hds⟩ := h
  cases ds with
  | nil => exact absurd rfl hne
  | cons c ds => exact hds c (by simp)

lemma dropWhile_digits (hds : ∀ c ∈ ds, c.isDigit = true) (hr : startsWithDigit r = false) :
    (ds ++ r).dropWhile Char.isDigit = r := by
  rw [List.dropWhile_append_of_pos hds]
  cases r with
  | nil => rfl
  | cons c r => exact List.dropWhile_cons_of_neg (by simpa [startsWithDigit] using hr)

lemma takeWhile_digits (hds : ∀ c ∈ ds, c.isDigit = true) (hr : startsWithDigit r = false) :
    (ds ++ r).takeWhile Char.isDigit = ds := by
  rw [List.takeWhile_append_of_pos hds]
  cases r with
  | nil => simp
  | cons c r => simpa [startsWithDigit] using hr

/-- The digits in front. -/
lemma exists_digits (h : startsWithDigit s = true) :
    ∃ ds, Digits ds ∧ s = ds ++ s.dropWhile Char.isDigit ∧ s.takeWhile Char.isDigit = ds := by
  refine ⟨s.takeWhile Char.isDigit, ⟨?_, fun c hc => List.mem_takeWhile_imp hc⟩, ?_, rfl⟩
  · cases s with
    | nil => cases h
    | cons c s => simpa [startsWithDigit] using h
  · exact List.takeWhile_append_dropWhile.symm

/-- The digits that fit are taken; others, if any, are left. -/
lemma takeDigits_eq {m n m' n' : Nat} (h : takeDigits m n s = (m', n', r)) :
    ∃ ds, (∀ c ∈ ds, c.isDigit = true) ∧ s = ds ++ r ∧ n' = n + ds.length ∧
      ∀ r', startsWithDigit r' = false ∨ r'.head? = r.head? →
        takeDigits m n (ds ++ r') = (m', n', r') := by
  induction s generalizing m n with
  | nil =>
    simp only [takeDigits, Prod.mk.injEq] at h
    obtain ⟨rfl, rfl, rfl⟩ := h
    refine ⟨[], by simp, rfl, rfl, ?_⟩
    intro r' hr'
    cases r' with
    | nil => rfl
    | cons c r' => simp_all [takeDigits, startsWithDigit]
  | cons c s ih =>
    rw [takeDigits] at h
    split_ifs at h with hc
    · obtain ⟨ds, hds, rfl, rfl, hlocal⟩ := ih h
      refine ⟨c :: ds, by simpa [hc.1] using hds, rfl, by simp; omega, ?_⟩
      intro r' hr'
      rw [List.cons_append, takeDigits, if_pos hc, hlocal r' hr']
    · simp only [Prod.mk.injEq] at h
      obtain ⟨rfl, rfl, rfl⟩ := h
      refine ⟨[], by simp, rfl, rfl, ?_⟩
      intro r' hr'
      cases r' with
      | nil => rfl
      | cons d r' =>
        rcases hr' with hr' | hr'
        · simp_all [takeDigits, startsWithDigit]
        · obtain rfl : d = c := by simpa using hr'
          rw [List.nil_append, takeDigits, if_neg hc]

/-- Of a run of digits some fit and some are left. What follows the run makes no difference to
how many. -/
lemma takeDigits_more {m n m' n' : Nat} {v : List Char} (h : takeDigits m n s = (m', n', v))
    (hmore : startsWithDigit v = true) :
    ∃ ds, Digits ds ∧ s = ds ++ v.dropWhile Char.isDigit ∧
      ∀ r', startsWithDigit r' = false → ∃ v', takeDigits m n (ds ++ r') = (m', n', v') ∧
        startsWithDigit v' = true ∧ v'.takeWhile Char.isDigit = v.takeWhile Char.isDigit ∧
          v'.dropWhile Char.isDigit = r' := by
  obtain ⟨fit, hfit, rfl, -, hlocal⟩ := takeDigits_eq h
  obtain ⟨ds, hds, hv, htaken⟩ := exists_digits hmore
  refine ⟨fit ++ ds, .append hfit hds, by rw [List.append_assoc, ← hv], ?_⟩
  intro r' hr'
  have hhead : (ds ++ r').head? = v.head? := by
    rw [hv, List.head?_append_of_ne_nil _ hds.1, List.head?_append_of_ne_nil _ hds.1]
  refine ⟨ds ++ r', ?_, startsWithDigit_digits hds r', ?_, dropWhile_digits hds.2 hr'⟩
  · rw [List.append_assoc]
    exact hlocal _ (.inr hhead)
  · rw [htaken, takeWhile_digits hds.2 hr']

/-- Digits of an exponent that fits, or all up to the first one that does not. -/
lemma takeExponent_eq {n : Nat} {k : Option Nat} (h : takeExponent n s = (k, r)) :
    ∃ ds, (∀ c ∈ ds, c.isDigit = true) ∧ s = ds ++ r ∧
      ∀ r', startsWithDigit r' = false ∨ k = none → takeExponent n (ds ++ r') = (k, r') := by
  induction s generalizing n with
  | nil =>
    simp only [takeExponent, Prod.mk.injEq] at h
    obtain ⟨rfl, rfl⟩ := h
    refine ⟨[], by simp, rfl, ?_⟩
    intro r' hr'
    cases r' with
    | nil => rfl
    | cons c r' => simp_all [takeExponent, startsWithDigit]
  | cons c s ih =>
    rw [takeExponent] at h
    split_ifs at h with hc hn
    · obtain ⟨ds, hds, rfl, hlocal⟩ := ih h
      refine ⟨c :: ds, by simpa [hc] using hds, rfl, ?_⟩
      intro r' hr'
      rw [List.cons_append, takeExponent, if_pos hc, if_pos hn, hlocal r' hr']
    · simp only [Prod.mk.injEq] at h
      obtain ⟨rfl, rfl⟩ := h
      refine ⟨[c], by simpa using hc, rfl, ?_⟩
      intro r' _
      rw [List.cons_append, takeExponent, if_pos hc, if_neg hn, List.nil_append]
    · simp only [Prod.mk.injEq] at h
      obtain ⟨rfl, rfl⟩ := h
      refine ⟨[], by simp, rfl, ?_⟩
      intro r' hr'
      cases r' with
      | nil => rfl
      | cons d r' => simp_all [takeExponent, startsWithDigit]

lemma exists_dropWhile (s : List Char) :
    ∃ ds, (∀ c ∈ ds, c.isDigit = true) ∧ s = ds ++ s.dropWhile Char.isDigit :=
  ⟨_, fun _ hc => List.mem_takeWhile_imp hc, List.takeWhile_append_dropWhile.symm⟩

/-- A sign in front of the digits of an exponent, and what is left. -/
def splitSign (s : List Char) : Bool × List Char :=
  match s with
  | '+' :: r => (false, r)
  | '-' :: r => (true, r)
  | r => (false, r)

lemma splitSign_other (h : ∀ r, s = '+' :: r → False) (h' : ∀ r, s = '-' :: r → False) :
    splitSign s = (false, s) := by
  unfold splitSign
  split
  · exact absurd rfl (h _)
  · exact absurd rfl (h' _)
  · rfl

lemma splitSign_digit (hc : c.isDigit = true) (s : List Char) :
    splitSign (c :: s) = (false, c :: s) := by
  apply splitSign_other <;>
  · intro r heq
    obtain ⟨rfl, -⟩ := List.cons.inj heq
    cases hc

/-- What is behind the sign decides where a power ends. -/
lemma exists_sign (s : List Char) : ∃ sign, (sign = [] ∨ sign = ['+'] ∨ sign = ['-']) ∧
    s = sign ++ (splitSign s).2 ∧
      ∀ c r, c.isDigit = true → splitSign (sign ++ c :: r) = ((splitSign s).1, c :: r) := by
  by_cases hplus : ∃ r, s = '+' :: r
  · obtain ⟨r, rfl⟩ := hplus
    exact ⟨['+'], by simp, rfl, fun _ _ _ => rfl⟩
  by_cases hminus : ∃ r, s = '-' :: r
  · obtain ⟨r, rfl⟩ := hminus
    exact ⟨['-'], by simp, rfl, fun _ _ _ => rfl⟩
  · have hother : splitSign s = (false, s) :=
      splitSign_other (fun r hr => hplus ⟨r, hr⟩) fun r hr => hminus ⟨r, hr⟩
    rw [hother]
    exact ⟨[], by simp, rfl, fun c r hc => splitSign_digit hc r⟩

lemma skipExponent_eq (s : List Char) : skipExponent s =
    if startsWithDigit (splitSign s).2 then .ok ((splitSign s).2.dropWhile Char.isDigit)
    else .error (.on (splitSign s).2 .invalidNumber) := by
  unfold skipExponent
  split
  · rfl
  · rfl
  · rename_i hplus hminus
    rw [splitSign_other hplus hminus]

lemma exponentPart_eq (negative : Bool) (m : Nat) (e : Int) (s : List Char) :
    exponentPart negative m e s = match (splitSign s).2 with
      | [] => .error (.before [] .endInValue)
      | c :: r =>
        if ¬ c.isDigit then .error (.on (c :: r) .invalidNumber)
        else match takeExponent (digitValue c) r with
          | (some n, r) =>
            finish negative m (clampExponent (if (splitSign s).1 then e - n else e + n)) r
          | (none, r) =>
            if m ≠ 0 ∧ ¬ (splitSign s).1 then .error (.before r .numberOutOfRange)
            else finish negative 0 0 (r.dropWhile Char.isDigit) := by
  unfold exponentPart
  split
  rename_i down u heq
  have hsign : splitSign s = (down, u) := heq
  obtain ⟨rfl, rfl⟩ : down = (splitSign s).1 ∧ u = (splitSign s).2 := by simp [hsign]
  rfl

/-- A power is taken whole: what follows it makes no difference. -/
lemma exists_of_skipExponent (h : skipExponent s = .ok r) :
    ∃ t, Power t ∧ s = t ++ r := by
  obtain ⟨sign, hsign, hs, -⟩ := exists_sign s
  rw [skipExponent_eq] at h
  split_ifs at h with hdigit
  obtain ⟨ds, hds, hu, -⟩ := exists_digits hdigit
  rw [Except.ok.inj h] at hu
  exact ⟨sign ++ ds, ⟨sign, ds, hsign, hds, rfl⟩, by rw [hs, hu, List.append_assoc]⟩

lemma skipExponent_append (ht : Power t) (hr : startsWithDigit r = false) :
    skipExponent (t ++ r) = .ok r := by
  obtain ⟨sign, ds, hsign, hds, rfl⟩ := ht
  have hdigit := startsWithDigit_digits hds r
  have hsplit : (splitSign (sign ++ ds ++ r)).2 = ds ++ r := by
    obtain ⟨hne, hall⟩ := hds
    obtain ⟨c, ds, rfl⟩ := List.exists_cons_of_ne_nil hne
    have hc : c.isDigit = true := hall c (by simp)
    rcases hsign with rfl | rfl | rfl
    · exact congrArg Prod.snd (splitSign_digit hc _)
    · rfl
    · rfl
  rw [skipExponent_eq, hsplit, if_pos hdigit, dropWhile_digits hds.2 hr]

lemma exists_of_skipFraction (h : skipFraction s = .ok r) :
    ∃ ds e, Digits ds ∧ Exponent e ∧ s = ds ++ e ++ r := by
  unfold skipFraction at h
  split_ifs at h with hdigit
  obtain ⟨ds, hds, hs, -⟩ := exists_digits (by simpa using hdigit)
  split at h
  · rename_i u hu
    obtain ⟨p, hp, rfl⟩ := exists_of_skipExponent h
    exact ⟨ds, 'e' :: p, hds, .inr ⟨'e', p, by simp, hp, rfl⟩, by rw [hs, hu]; simp⟩
  · rename_i u hu
    obtain ⟨p, hp, rfl⟩ := exists_of_skipExponent h
    exact ⟨ds, 'E' :: p, hds, .inr ⟨'E', p, by simp, hp, rfl⟩, by rw [hs, hu]; simp⟩
  · obtain rfl := Except.ok.inj h
    exact ⟨ds, [], hds, .inl rfl, by simpa using hs⟩

lemma skipFraction_append {e : List Char} (hds : Digits ds) (he : Exponent e) (hr : Ends r) :
    skipFraction (ds ++ (e ++ r)) = .ok r := by
  have hdrop := dropWhile_digits hds.2 (he.startsWithDigit hr)
  unfold skipFraction
  rw [if_neg (by simp [startsWithDigit_digits hds]), hdrop]
  rcases he with rfl | ⟨mark, p, rfl | rfl, hp, rfl⟩
  · rw [List.nil_append]
    split
    · exact absurd rfl (hr _ rfl).2.2.1
    · exact absurd rfl (hr _ rfl).2.2.2
    · rfl
  · exact skipExponent_append hp hr.startsWithDigit
  · exact skipExponent_append hp hr.startsWithDigit

/-- What follows the integer when a number is passed over. -/
def skipTail (s : List Char) : Except Fault (List Char) :=
  match s with
  | '.' :: r => skipFraction r
  | 'e' :: r => skipExponent r
  | 'E' :: r => skipExponent r
  | r => if startsWithDigit r then .error (.on r .invalidNumber) else .ok r

lemma exists_of_skipTail (h : skipTail s = .ok r) : ∃ t, Tail t ∧ s = t ++ r := by
  unfold skipTail at h
  split at h
  · obtain ⟨ds, e, hds, he, rfl⟩ := exists_of_skipFraction h
    exact ⟨'.' :: ds ++ e, ⟨_, e, .inr ⟨ds, hds, rfl⟩, he, rfl⟩, rfl⟩
  · obtain ⟨p, hp, rfl⟩ := exists_of_skipExponent h
    exact ⟨'e' :: p, Exponent.tail (.inr ⟨'e', p, by simp, hp, rfl⟩), rfl⟩
  · obtain ⟨p, hp, rfl⟩ := exists_of_skipExponent h
    exact ⟨'E' :: p, Exponent.tail (.inr ⟨'E', p, by simp, hp, rfl⟩), rfl⟩
  · split_ifs at h
    obtain rfl := Except.ok.inj h
    exact ⟨[], Exponent.tail (.inl rfl), rfl⟩

lemma skipTail_append (ht : Tail t) (hr : Ends r) : skipTail (t ++ r) = .ok r := by
  obtain ⟨f, e, rfl | ⟨ds, hds, rfl⟩, he, rfl⟩ := ht
  · rcases he with rfl | ⟨mark, p, rfl | rfl, hp, rfl⟩
    · change skipTail r = .ok r
      unfold skipTail
      split
      · exact absurd rfl (hr _ rfl).2.1
      · exact absurd rfl (hr _ rfl).2.2.1
      · exact absurd rfl (hr _ rfl).2.2.2
      · rw [hr.startsWithDigit]
        rfl
    · exact skipExponent_append hp hr.startsWithDigit
    · exact skipExponent_append hp hr.startsWithDigit
  · rw [List.append_assoc]
    exact skipFraction_append hds he hr

lemma skipNumber_zero (s : List Char) : skipNumber ('0' :: s) = skipTail s := rfl

lemma skipNumber_digits (hc : c.isDigit = true) (hne : c ≠ '0') (s : List Char) :
    skipNumber (c :: s) = skipTail ((c :: s).dropWhile Char.isDigit) := by
  have hdigit : startsWithDigit (c :: s) = true := hc
  unfold skipNumber
  rw [if_neg (by simp [hdigit])]
  split
  · rename_i heq
    exact absurd (List.cons.inj heq).1 hne
  · rfl

/-- Passing over a number takes a numeral. -/
theorem exists_of_skipNumber (h : skipNumber s = .ok r) : ∃ t, Numeral t ∧ s = t ++ r := by
  have hdigit : startsWithDigit s = true := by
    unfold skipNumber at h
    split_ifs at h with hd
    simpa using hd
  cases s with
  | nil => cases hdigit
  | cons c s =>
    by_cases hc : c = '0'
    · subst hc
      rw [skipNumber_zero] at h
      obtain ⟨u, hu, rfl⟩ := exists_of_skipTail h
      exact ⟨'0' :: u, ⟨['0'], u, .inl rfl, hu, rfl⟩, rfl⟩
    · rw [skipNumber_digits hdigit hc] at h
      obtain ⟨ds, hds, hs, htake⟩ := exists_digits hdigit
      obtain ⟨u, hu, hrest⟩ := exists_of_skipTail h
      have hhead : ds.head? ≠ some '0' := by
        have hd : c.isDigit = true := hdigit
        rw [← htake, List.takeWhile_cons_of_pos hd]
        simpa using hc
      rw [hrest] at hs
      exact ⟨ds ++ u, ⟨ds, u, .inr ⟨hds, hhead⟩, hu, rfl⟩, by rw [hs, List.append_assoc]⟩

/-- Every numeral can be passed over. -/
theorem skipNumber_append (ht : Numeral t) (hr : Ends r) : skipNumber (t ++ r) = .ok r := by
  obtain ⟨w, u, rfl | ⟨⟨hne, hall⟩, hzero⟩, hu, rfl⟩ := ht
  · rw [List.append_assoc, List.singleton_append, skipNumber_zero, skipTail_append hu hr]
  · obtain ⟨c, ds, rfl⟩ := List.exists_cons_of_ne_nil hne
    have hc : c.isDigit = true := hall c (by simp)
    have hdrop := dropWhile_digits hall (hu.startsWithDigit hr)
    rw [List.append_assoc, List.cons_append, skipNumber_digits hc (by simpa using hzero),
      ← List.cons_append, hdrop, skipTail_append hu hr]

/-- A reader of numbers that takes texts of a form, and whose result depends on nothing else. -/
def Detached (form : List Char → Prop) (f : List Char → Except Fault (Number × List Char)) : Prop :=
  ∀ s n r, f s = .ok (n, r) →
    ∃ t, form t ∧ s = t ++ r ∧ ∀ r', Ends r' → f (t ++ r') = .ok (n, r')

variable {negative : Bool} {m : Nat} {e : Int}

lemma finish_eq_ok {n : Number} (h : finish negative m e s = .ok (n, r)) (r' : List Char) :
    s = r ∧ finish negative m e r' = .ok (n, r') := by
  unfold finish at h ⊢
  split at h
  · cases h
  · obtain ⟨rfl, rfl⟩ := Prod.mk.inj (Except.ok.inj h)
    exact ⟨rfl, rfl⟩

lemma detached_exponentPart : Detached Power (exponentPart negative m e) := by
  intro s n r h
  obtain ⟨sign, hsign, hs, hlocal⟩ := exists_sign s
  rw [exponentPart_eq] at h
  split at h
  · cases h
  · rename_i c u hu
    split at h
    · cases h
    rename_i hdigit
    rw [not_not] at hdigit
    rw [hu] at hs
    split at h
    · rename_i k v hk
      obtain ⟨ds, hds, rfl, hrun⟩ := takeExponent_eq hk
      obtain ⟨rfl, -⟩ := finish_eq_ok h []
      have hdigits := digits_cons hdigit hds
      refine ⟨sign ++ c :: ds, ⟨sign, c :: ds, hsign, hdigits, rfl⟩, by simp [hs], ?_⟩
      intro r' hr'
      have hsplit := hlocal c (ds ++ r') hdigit
      rw [exponentPart_eq, List.append_assoc, List.cons_append, hsplit]
      dsimp only
      rw [if_neg (not_not.mpr hdigit), hrun r' (.inl hr'.startsWithDigit)]
      exact (finish_eq_ok h r').2
    · rename_i v hk
      obtain ⟨ds, hds, rfl, hrun⟩ := takeExponent_eq hk
      obtain ⟨ds', hds', hv⟩ := exists_dropWhile v
      split at h
      · cases h
      rename_i hdown
      obtain ⟨hr, -⟩ := finish_eq_ok h []
      rw [hr] at hv
      refine ⟨sign ++ c :: (ds ++ ds'), ⟨sign, c :: (ds ++ ds'), hsign, ?_, rfl⟩, ?_, ?_⟩
      · refine digits_cons hdigit fun d hd => ?_
        exact (List.mem_append.mp hd).elim (hds d) (hds' d)
      · rw [hs, hv]
        simp
      · intro r' hr'
        have hsplit := hlocal c (ds ++ (ds' ++ r')) hdigit
        rw [exponentPart_eq, List.append_assoc, List.cons_append, List.append_assoc, hsplit]
        dsimp only
        rw [if_neg (not_not.mpr hdigit), hrun _ (.inr rfl)]
        dsimp only
        rw [if_neg hdown, dropWhile_digits hds' hr'.startsWithDigit]
        exact (finish_eq_ok h r').2

lemma detached_exponentOrEnd : Detached Exponent (exponentOrEnd negative m e) := by
  intro s n r h
  unfold exponentOrEnd at h
  split at h
  · obtain ⟨p, hp, rfl, hlocal⟩ := detached_exponentPart _ n r h
    exact ⟨'e' :: p, .inr ⟨'e', p, by simp, hp, rfl⟩, rfl, hlocal⟩
  · obtain ⟨p, hp, rfl, hlocal⟩ := detached_exponentPart _ n r h
    exact ⟨'E' :: p, .inr ⟨'E', p, by simp, hp, rfl⟩, rfl, hlocal⟩
  · obtain ⟨rfl, -⟩ := finish_eq_ok h []
    refine ⟨[], .inl rfl, rfl, ?_⟩
    intro r' hr'
    rw [List.nil_append, exponentOrEnd]
    · exact (finish_eq_ok h r').2
    · rintro u rfl
      exact (hr' _ rfl).2.2.1 rfl
    · rintro u rfl
      exact (hr' _ rfl).2.2.2 rfl

/-- The digits behind the point, then perhaps an exponent. -/
def Decimals (t : List Char) : Prop := ∃ ds e, Digits ds ∧ Exponent e ∧ t = ds ++ e

lemma detached_fractionPart : Detached Decimals (fractionPart negative m e) := by
  intro s n r h
  unfold fractionPart at h
  rcases htake : takeDigits m 0 s with ⟨m', k, v⟩
  rw [htake] at h
  dsimp only at h
  split_ifs at h with hmore hnone
  · obtain ⟨ds, hds, hs, hrun⟩ := takeDigits_more htake hmore
    obtain ⟨x, hx, hrest, hlocal⟩ := detached_exponentOrEnd _ n r h
    rw [hrest] at hs
    refine ⟨ds ++ x, ⟨ds, x, hds, hx, rfl⟩, by rw [hs, List.append_assoc], ?_⟩
    intro r' hr'
    obtain ⟨v', htake', hmore', -, hdrop⟩ := hrun (x ++ r') (hx.startsWithDigit hr')
    unfold fractionPart
    rw [List.append_assoc, htake']
    dsimp only
    rw [if_pos hmore', hdrop]
    exact hlocal r' hr'
  · split at h <;> cases h
  · obtain ⟨ds, hds, rfl, hk, hrun⟩ := takeDigits_eq htake
    obtain ⟨x, hx, rfl, hlocal⟩ := detached_exponentOrEnd _ n r h
    have hne : ds ≠ [] := by
      rintro rfl
      exact hnone (by simpa using hk)
    refine ⟨ds ++ x, ⟨ds, x, ⟨hne, hds⟩, hx, rfl⟩, by rw [List.append_assoc], ?_⟩
    intro r' hr'
    have hend := hx.startsWithDigit hr'
    unfold fractionPart
    rw [List.append_assoc, hrun _ (.inl hend)]
    dsimp only
    rw [hend, if_neg Bool.false_ne_true, if_neg hnone]
    exact hlocal r' hr'

lemma Decimals.tail (h : Decimals t) : Tail ('.' :: t) := by
  obtain ⟨ds, e, hds, he, rfl⟩ := h
  exact ⟨'.' :: ds, e, .inr ⟨ds, hds, rfl⟩, he, rfl⟩

lemma detached_afterInteger : Detached Tail (afterInteger negative m) := by
  intro s n r h
  unfold afterInteger at h
  split at h
  · obtain ⟨d, hd, rfl, hlocal⟩ := detached_fractionPart _ n r h
    exact ⟨'.' :: d, hd.tail, rfl, hlocal⟩
  · obtain ⟨p, hp, rfl, hlocal⟩ := detached_exponentPart _ n r h
    exact ⟨'e' :: p, Exponent.tail (.inr ⟨'e', p, by simp, hp, rfl⟩), rfl, hlocal⟩
  · obtain ⟨p, hp, rfl, hlocal⟩ := detached_exponentPart _ n r h
    exact ⟨'E' :: p, Exponent.tail (.inr ⟨'E', p, by simp, hp, rfl⟩), rfl, hlocal⟩
  · refine ⟨[], Exponent.tail (.inl rfl), ?_, ?_⟩
    · split_ifs at h <;> exact (Prod.mk.inj (Except.ok.inj h)).2
    · intro r' hr'
      rw [List.nil_append, afterInteger]
      · split_ifs at h ⊢ <;> obtain ⟨rfl, -⟩ := Prod.mk.inj (Except.ok.inj h) <;> rfl
      · rintro u rfl
        exact (hr' _ rfl).2.1 rfl
      · rintro u rfl
        exact (hr' _ rfl).2.2.1 rfl
      · rintro u rfl
        exact (hr' _ rfl).2.2.2 rfl

/-- What follows an integer with more digits than fit. -/
def afterLong (negative : Bool) (m : Nat) (e : Int) (s : List Char) :
    Except Fault (Number × List Char) :=
  match s with
  | '.' :: r => fractionPart negative m e r
  | r => exponentOrEnd negative m e r

lemma detached_afterLong : Detached Tail (afterLong negative m e) := by
  intro s n r h
  unfold afterLong at h
  split at h
  · obtain ⟨d, hd, rfl, hlocal⟩ := detached_fractionPart _ n r h
    exact ⟨'.' :: d, hd.tail, rfl, hlocal⟩
  · obtain ⟨x, hx, rfl, hlocal⟩ := detached_exponentOrEnd _ n r h
    refine ⟨x, hx.tail, rfl, ?_⟩
    intro r' hr'
    rw [afterLong]
    · exact hlocal r' hr'
    · intro u hu
      rcases hx with rfl | ⟨mark, p, rfl | rfl, hp, rfl⟩
      · rw [List.nil_append] at hu
        have hdot := hr' '.' (by rw [hu]; rfl)
        exact hdot.2.1 rfl
      · cases hu
      · cases hu

/-- Reading a number takes a numeral, which alone decides about the value. -/
theorem detached_readNumber : Detached Numeral (readNumber negative) := by
  intro s n r h
  cases s with
  | nil => cases h
  | cons c s =>
    rw [readNumber] at h
    split_ifs at h with hzero hmore hdigit
    · obtain ⟨u, hu, rfl, hlocal⟩ := detached_afterInteger _ n r h
      refine ⟨c :: u, ⟨[c], u, .inl (by rw [hzero]), hu, rfl⟩, rfl, ?_⟩
      intro r' hr'
      have hend := hu.startsWithDigit hr'
      rw [List.cons_append, readNumber, if_pos hzero, hend, if_neg Bool.false_ne_true]
      exact hlocal r' hr'
    · rcases htake : takeDigits (digitValue c) 0 s with ⟨m, k, v⟩
      rw [htake] at h
      dsimp only at h
      split_ifs at h with hlong
      · obtain ⟨ds, hds, hs, hrun⟩ := takeDigits_more htake hlong
        have hafter : afterLong negative m (v.takeWhile Char.isDigit).length
            (v.dropWhile Char.isDigit) = .ok (n, r) := h
        obtain ⟨u, hu, hrest, hlocal⟩ := detached_afterLong _ n r hafter
        rw [hrest] at hs
        have hwhole : Whole (c :: ds) := .inr ⟨digits_cons hdigit hds.2, by simpa using hzero⟩
        refine ⟨c :: ds ++ u, ⟨_, u, hwhole, hu, rfl⟩, by rw [hs]; simp, ?_⟩
        intro r' hr'
        obtain ⟨v', htake', hlong', hcount, hdrop⟩ := hrun (u ++ r') (hu.startsWithDigit hr')
        rw [List.append_assoc, List.cons_append, readNumber, if_neg hzero,
          if_neg (not_not.mpr hdigit), htake']
        dsimp only
        rw [if_pos hlong', hcount, hdrop]
        exact hlocal r' hr'
      · obtain ⟨ds, hds, rfl, -, hrun⟩ := takeDigits_eq htake
        obtain ⟨u, hu, rfl, hlocal⟩ := detached_afterInteger _ n r h
        have hwhole : Whole (c :: ds) := .inr ⟨digits_cons hdigit hds, by simpa using hzero⟩
        refine ⟨c :: ds ++ u, ⟨_, u, hwhole, hu, rfl⟩, by simp, ?_⟩
        intro r' hr'
        have hend := hu.startsWithDigit hr'
        rw [List.append_assoc, List.cons_append, readNumber, if_neg hzero,
          if_neg (not_not.mpr hdigit), hrun _ (.inl hend)]
        dsimp only
        rw [hend, if_neg Bool.false_ne_true]
        exact hlocal r' hr'

lemma newline_notMem_of_digits (h : ∀ c ∈ ds, c.isDigit = true) : '\n' ∉ ds := by
  intro hmem
  cases h '\n' hmem

lemma Power.newline_notMem (h : Power t) : '\n' ∉ t := by
  obtain ⟨sign, ds, hsign, hds, rfl⟩ := h
  have hdigits := newline_notMem_of_digits hds.2
  rcases hsign with rfl | rfl | rfl <;> simpa using hdigits

lemma Exponent.newline_notMem (h : Exponent t) : '\n' ∉ t := by
  rcases h with rfl | ⟨mark, p, rfl | rfl, hp, rfl⟩
  · simp
  · simpa using hp.newline_notMem
  · simpa using hp.newline_notMem

lemma Numeral.newline_notMem (h : Numeral t) : '\n' ∉ t := by
  obtain ⟨w, u, hw, ⟨f, e, hf, he, rfl⟩, rfl⟩ := h
  have hwhole : '\n' ∉ w := by
    rcases hw with rfl | ⟨hds, -⟩
    · decide
    · exact newline_notMem_of_digits hds.2
  have hfraction : '\n' ∉ f := by
    rcases hf with rfl | ⟨ds, hds, rfl⟩
    · simp
    · simpa using newline_notMem_of_digits hds.2
  simp [hwhole, hfraction, he.newline_notMem]

end PaymentDrill.Json
