import PaymentDrill.Balances
import PaymentDrill.Config
import PaymentDrill.Proofs.Grammar

/-!
# The grammars of configurations and balances

The texts that are configurations and the texts that are reports of balances, without
a reader. In an object the fields stand in any order among other members, each of them
at most once; in a list they stand in their own order and nothing else does.
-/
namespace PaymentDrill

open Json

section Fields

variable (name : String) (fields before : Nat)

lemma takes_quotedField :
    Takes (listField name fields before readString) (Led (before == 0) Quoted) :=
  takes_listField reads_readString opens_quoted name fields before

lemma reads_quotedList : Reads (readList readString) (Listed Quoted) :=
  reads_readList reads_readString opens_quoted

lemma takes_quotedListField :
    Takes (listField name fields before (readList readString))
      (Led (before == 0) (Listed Quoted)) :=
  takes_listField reads_quotedList (opens_listed Quoted) name fields before

lemma takes_realField :
    Takes (listField name fields before readBinary64) (Led (before == 0) Real) :=
  takes_listField reads_readBinary64 (opens_signed.map _) name fields before

lemma takes_wordField : Takes (listField name fields before readWord) (Led (before == 0) Word) :=
  takes_listField reads_readWord opens_word name fields before

end Fields

namespace Config

/-- What a member makes of the fields that are known in front of it. -/
def Step (key : String) (f : Fields) : Grammar Fields :=
  if key = "password" then (Fresh f.password Quoted).map fun x => { f with password := some x }
  else if key = "address" then
    (Fresh f.addresses (Listed Quoted)).map fun x => { f with addresses := some x }
  else if key = "maxtxamount" then
    (Fresh f.maxAmount Real).map fun x => { f with maxAmount := some x }
  else if key = "minconf" then
    (Fresh f.minConfirmations Word).map fun x => { f with minConfirmations := some x }
  else if key = "account" then (Fresh f.account Quoted).map fun x => { f with account := some x }
  else Foreign f

lemma takes_member (key : String) (f : Fields) : Takes (member key f) (Step key f) := by
  unfold member Step
  split_ifs
  · exact (takes_field reads_readString key f.password).map _ fun _ _ => rfl
  · exact (takes_field reads_quotedList key f.addresses).map _ fun _ _ => rfl
  · exact (takes_field reads_readBinary64 key f.maxAmount).map _ fun _ _ => rfl
  · exact (takes_field reads_readWord key f.minConfirmations).map _ fun _ _ => rfl
  · exact (takes_field reads_readString key f.account).map _ fun _ _ => rfl
  · exact takes_unknownMember f

/-- The fields of a configuration in a list, behind its opening bracket. -/
def InList : Grammar Config := fun t c => ∃ t₀ t₁ t₂ t₃ t₄ b,
  Led true Quoted t₀ c.password ∧ Led false (Listed Quoted) t₁ c.addresses ∧
    Led false Real t₂ c.maxAmount ∧ Led false Word t₃ c.minConfirmations ∧
      Led false Quoted t₄ c.account ∧ Blank b ∧
        t = t₀ ++ (t₁ ++ (t₂ ++ (t₃ ++ (t₄ ++ (b ++ [']'])))))

lemma takes_ofList : Takes ofList InList where
  sound := by
    intro s c r h
    unfold ofList at h
    obtain ⟨⟨p, s₁⟩, hp, h⟩ := bind_eq_ok_iff.mp h
    obtain ⟨⟨as, s₂⟩, has, h⟩ := bind_eq_ok_iff.mp h
    obtain ⟨⟨x, s₃⟩, hx, h⟩ := bind_eq_ok_iff.mp h
    obtain ⟨⟨n, s₄⟩, hn, h⟩ := bind_eq_ok_iff.mp h
    obtain ⟨⟨a, s₅⟩, ha, h⟩ := bind_eq_ok_iff.mp h
    obtain ⟨s₆, hend, h⟩ := bind_eq_ok_iff.mp h
    obtain ⟨rfl, rfl⟩ := Prod.mk.inj (Except.ok.inj h)
    obtain ⟨t₀, h₀, rfl⟩ := (takes_quotedField recordName 5 0).sound s p s₁ hp
    obtain ⟨t₁, h₁, rfl⟩ := (takes_quotedListField recordName 5 1).sound s₁ as s₂ has
    obtain ⟨t₂, h₂, rfl⟩ := (takes_realField recordName 5 2).sound s₂ x s₃ hx
    obtain ⟨t₃, h₃, rfl⟩ := (takes_wordField recordName 5 3).sound s₃ n s₄ hn
    obtain ⟨t₄, h₄, rfl⟩ := (takes_quotedField recordName 5 4).sound s₄ a s₅ ha
    obtain ⟨b, hb, rfl⟩ := endList_eq_ok_iff.mp hend
    exact ⟨_, ⟨t₀, t₁, t₂, t₃, t₄, b, h₀, h₁, h₂, h₃, h₄, hb, rfl⟩, by simp⟩
  complete := by
    rintro t c r ⟨t₀, t₁, t₂, t₃, t₄, b, h₀, h₁, h₂, h₃, h₄, hb, rfl⟩ -
    have hclose : Ends (b ++ ']' :: r) := .blank_append hb (ends_cons (by simp) r)
    simp only [List.append_assoc, List.singleton_append]
    unfold ofList
    refine bind_eq_ok_iff.mpr ⟨_, (takes_quotedField _ 5 0).complete t₀ _ _ h₀ (h₁.ends _), ?_⟩
    refine bind_eq_ok_iff.mpr ⟨_, (takes_quotedListField _ 5 1).complete t₁ _ _ h₁ (h₂.ends _), ?_⟩
    refine bind_eq_ok_iff.mpr ⟨_, (takes_realField _ 5 2).complete t₂ _ _ h₂ (h₃.ends _), ?_⟩
    refine bind_eq_ok_iff.mpr ⟨_, (takes_wordField _ 5 3).complete t₃ _ _ h₃ (h₄.ends _), ?_⟩
    refine bind_eq_ok_iff.mpr ⟨_, (takes_quotedField _ 5 4).complete t₄ _ _ h₄ hclose, ?_⟩
    exact bind_eq_ok_iff.mpr ⟨r, endList_eq_ok_iff.mpr ⟨b, hb, rfl⟩, rfl⟩

/-- A configuration as an object or as a list. -/
def Text : Grammar Config := Record (Object Step .none ofFields) InList

theorem reads_read : Reads read Text :=
  reads_readRecord (takes_readObject takes_member .none ofFields) takes_ofList recordName

end Config

namespace Balances

/-- What a member of an entry makes of the fields that are known in front of it. -/
def EntryStep (key : String) (f : EntryFields) : Grammar EntryFields :=
  if key = "accountname" then (Fresh f.account Quoted).map fun x => { f with account := some x }
  else if key = "spendable" then
    (Fresh f.spendable Real).map fun x => { f with spendable := some x }
  else Foreign f

lemma takes_entryMember (key : String) (f : EntryFields) :
    Takes (entryMember key f) (EntryStep key f) := by
  unfold entryMember EntryStep
  split_ifs
  · exact (takes_field reads_readString key f.account).map _ fun _ _ => rfl
  · exact (takes_field reads_readBinary64 key f.spendable).map _ fun _ _ => rfl
  · exact takes_unknownMember f

/-- The fields of an entry in a list, behind its opening bracket. -/
def EntryInList : Grammar Balance := fun t e => ∃ t₀ t₁ b,
  Led true Quoted t₀ e.account ∧ Led false Real t₁ e.spendable ∧ Blank b ∧
    t = t₀ ++ (t₁ ++ (b ++ [']']))

lemma takes_entryOfList : Takes entryOfList EntryInList where
  sound := by
    intro s e r h
    unfold entryOfList at h
    obtain ⟨⟨a, s₁⟩, ha, h⟩ := bind_eq_ok_iff.mp h
    obtain ⟨⟨x, s₂⟩, hx, h⟩ := bind_eq_ok_iff.mp h
    obtain ⟨s₃, hend, h⟩ := bind_eq_ok_iff.mp h
    obtain ⟨rfl, rfl⟩ := Prod.mk.inj (Except.ok.inj h)
    obtain ⟨t₀, h₀, rfl⟩ := (takes_quotedField entryName 2 0).sound s a s₁ ha
    obtain ⟨t₁, h₁, rfl⟩ := (takes_realField entryName 2 1).sound s₁ x s₂ hx
    obtain ⟨b, hb, rfl⟩ := endList_eq_ok_iff.mp hend
    exact ⟨_, ⟨t₀, t₁, b, h₀, h₁, hb, rfl⟩, by simp⟩
  complete := by
    rintro t e r ⟨t₀, t₁, b, h₀, h₁, hb, rfl⟩ -
    have hclose : Ends (b ++ ']' :: r) := .blank_append hb (ends_cons (by simp) r)
    simp only [List.append_assoc, List.singleton_append]
    unfold entryOfList
    refine bind_eq_ok_iff.mpr ⟨_, (takes_quotedField _ 2 0).complete t₀ _ _ h₀ (h₁.ends _), ?_⟩
    refine bind_eq_ok_iff.mpr ⟨_, (takes_realField _ 2 1).complete t₁ _ _ h₁ hclose, ?_⟩
    exact bind_eq_ok_iff.mpr ⟨r, endList_eq_ok_iff.mpr ⟨b, hb, rfl⟩, rfl⟩

/-- An entry as an object or as a list. -/
def Entry : Grammar Balance := Record (Object EntryStep ⟨none, none⟩ entryOfFields) EntryInList

lemma reads_readEntry : Reads readEntry Entry :=
  reads_readRecord (takes_readObject takes_entryMember _ entryOfFields) takes_entryOfList entryName

/-- The list of the entries. -/
def Entries : Grammar Balances := Listed Entry

lemma reads_entries : Reads (readList readEntry) Entries :=
  reads_readList reads_readEntry (opens_record _ _)

/-- What a member of a report makes of the entries that are known in front of it. -/
def Step (key : String) (f : Option Balances) : Grammar (Option Balances) :=
  if key = "balances" then (Fresh f Entries).map some else Foreign f

lemma takes_balancesMember (key : String) (f : Option Balances) :
    Takes (member key f) (Step key f) := by
  unfold member Step
  split_ifs
  · exact (takes_field reads_entries key f).map _ fun _ _ => rfl
  · exact takes_unknownMember f

/-- The list of entries in a list, or nothing, behind the opening bracket. -/
def InList : Grammar Balances := fun t e =>
  (e = [] ∧ ∃ b, Blank b ∧ t = b ++ [']']) ∨
    ∃ u b, Led true Entries u e ∧ Blank b ∧ t = u ++ (b ++ [']'])

lemma takes_balancesOfList : Takes ofList InList where
  sound := by
    intro s e r h
    unfold ofList at h
    split at h
    · cases h
    · obtain ⟨r', hend, heq⟩ := map_eq_ok_iff.mp h
      obtain ⟨rfl, rfl⟩ := Prod.mk.inj heq
      obtain ⟨b, hb, rfl⟩ := endList_eq_ok_iff.mp hend
      exact ⟨b ++ [']'], .inl ⟨rfl, b, hb, rfl⟩, by simp⟩
    · rename_i u hnext
      obtain ⟨⟨e', s₁⟩, he, h⟩ := bind_eq_ok_iff.mp h
      obtain ⟨s₂, hend, h⟩ := bind_eq_ok_iff.mp h
      obtain ⟨rfl, rfl⟩ := Prod.mk.inj (Except.ok.inj h)
      obtain ⟨t, ht, rfl⟩ := sound_item reads_entries hnext he
      obtain ⟨b, hb, rfl⟩ := endList_eq_ok_iff.mp hend
      exact ⟨t ++ (b ++ [']']), .inr ⟨t, b, ht, hb, rfl⟩, by simp⟩
  complete := by
    rintro t e r (⟨rfl, b, hb, rfl⟩ | ⟨u, b, hu, hb, rfl⟩) -
    · have hend : endList (b ++ ']' :: r) = .ok r := endList_eq_ok_iff.mpr ⟨b, hb, rfl⟩
      unfold ofList
      rw [List.append_assoc, List.singleton_append, nextItem_end hb]
      dsimp only
      rw [hend]
      rfl
    · have hclose : Ends (b ++ ']' :: r) := .blank_append hb (ends_cons (by simp) r)
      obtain ⟨v, hnext, hread⟩ := complete_item reads_entries (opens_listed Entry) hu hclose
      unfold ofList
      rw [List.append_assoc, List.append_assoc, List.singleton_append, hnext]
      refine bind_eq_ok_iff.mpr ⟨_, hread, ?_⟩
      exact bind_eq_ok_iff.mpr ⟨r, endList_eq_ok_iff.mpr ⟨b, hb, rfl⟩, rfl⟩

/-- A report as an object or as a list. -/
def Text : Grammar Balances := Record (Object Step none fun f => .ok (f.getD [])) InList

theorem reads_read : Reads read Text :=
  reads_readRecord (takes_readObject takes_balancesMember none _) takes_balancesOfList recordName

end Balances

end PaymentDrill
