import Mathlib.Tactic.SplitIfs
import PaymentDrill.Balances
import PaymentDrill.Config
import PaymentDrill.Proofs.Readers
import PaymentDrill.Proofs.Rounding

/-!
# Finite amounts

Every amount that is read from text is finite: a significand fits 64 bits, a power of
ten that would overflow is refused, and division by a power of ten cannot overflow.
So no configuration and no report of balances holds an infinite amount or none at all.
-/
namespace PaymentDrill

namespace Json

lemma isFinite_ofNat {m : ℕ} (h : m < 2 ^ 64) : (Binary64.ofNat m).isFinite = true :=
  Binary64.isFinite_ofRatio false one_pos (h.le.trans (by decide +kernel))

lemma powerOfTen_eq (n : ℕ) : powerOfTen n = Binary64.ofNat (10 ^ n) := by
  simp [powerOfTen, Binary64.ofDecimal, Binary64.ofNat]

lemma atLeastOne_powerOfTen (n : ℕ) : (powerOfTen n).AtLeastOne :=
  powerOfTen_eq n ▸ Binary64.atLeastOne_ofNat (Nat.one_le_pow _ _ (by decide))

lemma isFinite_powerOfTen {n : ℕ} (h : n ≤ 308) : (powerOfTen n).isFinite = true := by
  have hle : 10 ^ n ≤ 10 ^ 308 := by gcongr; decide
  have hbound : 10 ^ 308 ≤ (2 ^ 53 - 1) * 2 ^ 971 * 1 := by decide +kernel
  rw [powerOfTen_eq]
  exact Binary64.isFinite_ofRatio false one_pos (hle.trans hbound)

lemma isFinite_divideDown {x : Binary64} (hx : x.isFinite = true) (steps n : ℕ) :
    (divideDown steps x n).isFinite = true := by
  induction steps generalizing x n with
  | zero => exact Binary64.isFinite_div hx (atLeastOne_powerOfTen n)
  | succ steps ih =>
    rw [divideDown]
    split_ifs
    · exact Binary64.isFinite_div hx (atLeastOne_powerOfTen n)
    · exact hx
    · exact ih (Binary64.isFinite_div hx (atLeastOne_powerOfTen 308)) _

/-- A significand and a power of ten make a finite value, or none. -/
lemma isFinite_of_scale? {m : ℕ} {e : ℤ} {x : Binary64} (hm : m < 2 ^ 64)
    (h : scale? m e = some x) : x.isFinite = true := by
  have hfin := isFinite_ofNat hm
  unfold scale? at h
  dsimp only at h
  split_ifs at h with hneg hbig hzero hover
  · exact Option.some.inj h ▸ isFinite_divideDown hfin _ _
  · exact Option.some.inj h ▸ hfin
  · obtain rfl := Option.some.inj h
    exact Binary64.isFinite_of_ne_nan (Binary64.mul_ne_nan hfin (isFinite_powerOfTen (by omega)))
      (by simpa using hover)

/-- A number that does not overflow. -/
def Number.Fits (n : Number) : Prop := n.toBinary64.isFinite = true

lemma fits_integer {n : ℤ} (h : n.natAbs < 2 ^ 64) : (Number.integer n).Fits :=
  Binary64.isFinite_ofRatio _ one_pos (h.le.trans (by decide +kernel))

variable {negative : Bool} {m : ℕ} {e : ℤ} {s r : List Char} {n : Number}

lemma takeDigits_lt {n : ℕ} (hm : m < 2 ^ 64) : (takeDigits m n s).1 < 2 ^ 64 := by
  induction s generalizing m n with
  | nil => exact hm
  | cons c s ih =>
    rw [takeDigits]
    split_ifs with h
    · exact ih h.2
    · exact hm

lemma fits_of_finish (hm : m < 2 ^ 64) (h : finish negative m e s = .ok (n, r)) : n.Fits := by
  unfold finish at h
  split at h
  · cases h
  · rename_i x hx
    obtain ⟨rfl, -⟩ := Prod.mk.inj (Except.ok.inj h)
    have hfin := isFinite_of_scale? hm hx
    cases negative
    · exact hfin
    · exact (Binary64.isFinite_neg x).trans hfin

lemma fits_of_exponentPart (hm : m < 2 ^ 64) (h : exponentPart negative m e s = .ok (n, r)) :
    n.Fits := by
  unfold exponentPart at h
  split at h
  split at h
  · cases h
  · split at h
    · cases h
    · split at h
      · exact fits_of_finish hm h
      · split_ifs at h
        exact fits_of_finish (by decide) h

lemma fits_of_exponentOrEnd (hm : m < 2 ^ 64) (h : exponentOrEnd negative m e s = .ok (n, r)) :
    n.Fits := by
  unfold exponentOrEnd at h
  split at h
  · exact fits_of_exponentPart hm h
  · exact fits_of_exponentPart hm h
  · exact fits_of_finish hm h

lemma fits_of_fractionPart (hm : m < 2 ^ 64) (h : fractionPart negative m e s = .ok (n, r)) :
    n.Fits := by
  unfold fractionPart at h
  dsimp only at h
  have hlt := takeDigits_lt (n := 0) (s := s) hm
  split_ifs at h
  · exact fits_of_exponentOrEnd hlt h
  · split at h <;> cases h
  · exact fits_of_exponentOrEnd hlt h

lemma fits_of_afterInteger (hm : m < 2 ^ 64) (h : afterInteger negative m s = .ok (n, r)) :
    n.Fits := by
  unfold afterInteger at h
  split at h
  · exact fits_of_fractionPart hm h
  · exact fits_of_exponentPart hm h
  · exact fits_of_exponentPart hm h
  · split_ifs at h with hzero hsign <;> obtain ⟨rfl, -⟩ := Prod.mk.inj (Except.ok.inj h)
    · exact (Binary64.isFinite_neg _).trans (isFinite_ofNat hm)
    · apply fits_integer
      rwa [Int.natAbs_neg, Int.natAbs_natCast]
    · apply fits_integer
      rwa [Int.natAbs_natCast]

lemma digitValue_lt {c : Char} (h : c.isDigit = true) : digitValue c < 10 := by
  have hc : 48 ≤ c.toNat ∧ c.toNat ≤ 57 := by
    simpa [Char.isDigit, UInt32.le_iff_toNat_le] using h
  have hzero : '0'.toNat = 48 := rfl
  unfold digitValue
  omega

/-- Every number that is read is finite as a binary64 value. -/
theorem fits_of_readNumber (h : readNumber negative s = .ok (n, r)) : n.Fits := by
  unfold readNumber at h
  split at h
  · cases h
  · rename_i c t
    split_ifs at h with hzero hone hdigit
    · exact fits_of_afterInteger (by decide) h
    · dsimp only at h
      have hlt : (takeDigits (digitValue c) 0 t).1 < 2 ^ 64 :=
        takeDigits_lt ((digitValue_lt hdigit).trans (by decide))
      split_ifs at h
      · split at h
        · exact fits_of_fractionPart hlt h
        · exact fits_of_exponentOrEnd hlt h
      · exact fits_of_afterInteger hlt h

lemma gives_readBinary64 : Gives readBinary64 (·.isFinite = true) := by
  intro s x r hs
  obtain ⟨⟨n, t⟩, hn, heq⟩ := map_eq_ok_iff.mp hs
  obtain ⟨rfl, -⟩ := Prod.mk.inj heq
  unfold readNumeral at hn
  split at hn
  · cases hn
  · split_ifs at hn
    · exact fits_of_readNumber hn
    · exact fits_of_readNumber hn

end Json

open Json

namespace Config

/-- The amount is neither infinite nor not a number. -/
def Bounded (c : Config) : Prop := c.maxAmount.isFinite = true

def Fields.Bounded (f : Fields) : Prop := ∀ x, f.maxAmount = some x → x.isFinite = true

lemma gives_member (key : String) (f : Fields) (hf : f.Bounded) :
    Gives (member key f) Fields.Bounded := by
  intro s g r hs
  unfold member at hs
  split_ifs at hs
  · exact of_map (gives_true _) (fun _ _ _ => hf) hs
  · exact of_map (gives_true _) (fun _ _ _ => hf) hs
  · refine of_map (gives_field gives_readBinary64 key f.maxAmount) ?_ hs
    intro x t hx y hy
    obtain rfl := Option.some.inj hy
    exact hx
  · exact of_map (gives_true _) (fun _ _ _ => hf) hs
  · exact of_map (gives_true _) (fun _ _ _ => hf) hs
  · exact gives_unknownMember hf s g r hs

lemma bounded_of_ofFields {f : Fields} {c : Config} (hf : f.Bounded) (h : ofFields f = .ok c) :
    c.Bounded := by
  obtain ⟨_ | p, _ | as, _ | x, _ | n, _ | a⟩ := f <;> simp only [ofFields, reduceCtorEq] at h
  obtain rfl := Except.ok.inj h
  exact hf x rfl

lemma gives_ofList : Gives ofList Bounded := by
  intro s c r hs
  unfold ofList at hs
  obtain ⟨⟨p, s₁⟩, -, hs⟩ := bind_eq_ok_iff.mp hs
  obtain ⟨⟨as, s₂⟩, -, hs⟩ := bind_eq_ok_iff.mp hs
  obtain ⟨⟨x, s₃⟩, hx, hs⟩ := bind_eq_ok_iff.mp hs
  obtain ⟨⟨n, s₄⟩, -, hs⟩ := bind_eq_ok_iff.mp hs
  obtain ⟨⟨a, s₅⟩, -, hs⟩ := bind_eq_ok_iff.mp hs
  obtain ⟨s₆, -, hs⟩ := bind_eq_ok_iff.mp hs
  obtain ⟨rfl, -⟩ := Prod.mk.inj (Except.ok.inj hs)
  exact gives_listField gives_readBinary64 _ _ _ s₂ x s₃ hx

/-- The amount of a configuration that is read from text is finite. -/
theorem bounded_of_ofText {text : List Char} {c : Config} (h : ofText text = .ok c) :
    c.Bounded := by
  have hobject : Gives (readObject member .none ofFields) Bounded :=
    gives_readObject gives_member (fun _ hx => nomatch hx) fun _ _ => bounded_of_ofFields
  exact of_readDocument (gives_readRecord hobject gives_ofList) h

end Config

namespace Balances

/-- Every amount of a report is finite. -/
def Bounded (b : Balances) : Prop := ∀ e ∈ b, e.spendable.isFinite = true

lemma isFinite_of_spendable? {b : Balances} (hb : b.Bounded) {account : String} {x : Binary64}
    (h : b.spendable? account = some x) : x.isFinite = true := by
  unfold spendable? at h
  obtain ⟨e, he, rfl⟩ := Option.map_eq_some_iff.mp h
  exact hb e (List.mem_of_find?_eq_some he)

def EntryFields.Bounded (f : EntryFields) : Prop :=
  ∀ x, f.spendable = some x → x.isFinite = true

lemma gives_entryMember (key : String) (f : EntryFields) (hf : f.Bounded) :
    Gives (entryMember key f) EntryFields.Bounded := by
  intro s g r hs
  unfold entryMember at hs
  split_ifs at hs
  · exact of_map (gives_true _) (fun _ _ _ => hf) hs
  · refine of_map (gives_field gives_readBinary64 key f.spendable) ?_ hs
    intro x t hx y hy
    obtain rfl := Option.some.inj hy
    exact hx
  · exact gives_unknownMember hf s g r hs

lemma isFinite_of_entryOfFields {f : EntryFields} {e : Balance} (hf : f.Bounded)
    (h : entryOfFields f = .ok e) : e.spendable.isFinite = true := by
  obtain ⟨_ | a, _ | x⟩ := f <;> simp only [entryOfFields, reduceCtorEq] at h
  obtain rfl := Except.ok.inj h
  exact hf x rfl

lemma gives_entryOfList : Gives entryOfList (·.spendable.isFinite = true) := by
  intro s e r hs
  unfold entryOfList at hs
  obtain ⟨⟨a, s₁⟩, -, hs⟩ := bind_eq_ok_iff.mp hs
  obtain ⟨⟨x, s₂⟩, hx, hs⟩ := bind_eq_ok_iff.mp hs
  obtain ⟨s₃, -, hs⟩ := bind_eq_ok_iff.mp hs
  obtain ⟨rfl, -⟩ := Prod.mk.inj (Except.ok.inj hs)
  exact gives_listField gives_readBinary64 _ _ _ s₁ x s₂ hx

lemma gives_readEntry : Gives readEntry (·.spendable.isFinite = true) :=
  gives_readRecord (gives_readObject gives_entryMember (fun _ hx => nomatch hx)
    fun _ _ => isFinite_of_entryOfFields) gives_entryOfList

def FieldsBounded (f : Option Balances) : Prop := ∀ b, f = some b → b.Bounded

lemma gives_balancesMember (key : String) (f : Option Balances) (hf : FieldsBounded f) :
    Gives (member key f) FieldsBounded := by
  intro s g r hs
  unfold member at hs
  split_ifs at hs
  · refine of_map (gives_field (gives_readList gives_readEntry) key f) ?_ hs
    intro b t hb b' heq
    obtain rfl := Option.some.inj heq
    exact hb
  · exact gives_unknownMember hf s g r hs

lemma gives_balancesOfList : Gives ofList Bounded := by
  intro s b r hs
  unfold ofList at hs
  split at hs
  · cases hs
  · obtain ⟨t, -, heq⟩ := map_eq_ok_iff.mp hs
    obtain ⟨rfl, -⟩ := Prod.mk.inj heq
    simp [Bounded]
  · obtain ⟨⟨b', s₁⟩, hb, hs⟩ := bind_eq_ok_iff.mp hs
    obtain ⟨s₂, -, hs⟩ := bind_eq_ok_iff.mp hs
    obtain ⟨rfl, -⟩ := Prod.mk.inj (Except.ok.inj hs)
    exact gives_readList gives_readEntry _ b' s₁ hb

/-- The amounts of a report that is read from text are finite. -/
theorem bounded_of_ofText {text : List Char} {b : Balances} (h : ofText text = .ok b) :
    b.Bounded := by
  have hobject : Gives (readObject member none fun f => .ok (f.getD [])) Bounded := by
    refine gives_readObject gives_balancesMember (fun _ hb => nomatch hb) ?_
    intro f b hf heq
    obtain rfl := Except.ok.inj heq
    cases f with
    | none => simp [Bounded]
    | some b => exact hf b rfl
  exact of_readDocument (gives_readRecord hobject gives_balancesOfList) h

end Balances

end PaymentDrill
