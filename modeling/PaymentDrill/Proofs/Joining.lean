import PaymentDrill.Proofs.Documents

/-!
# Joined lines

A configuration and a report of balances are read with their line feeds taken out. A
line feed stands only where blanks stand, and no two tokens need blanks to stay apart,
so a text of a grammar is still one without its line feeds and stands for the same
value. This holds of every grammar that the documents are put together from.
-/
namespace PaymentDrill

namespace Json

/-- A text of the grammar stands for the same value without its line feeds. -/
def Joins {α : Type} (G : Grammar α) : Prop := ∀ t a, G t a → G (Text.joinLines t) a

variable {α : Type} {G : Grammar α}

lemma Lead.joinLines {first : Bool} {c : List Char} (h : Lead first c) :
    Lead first (Text.joinLines c) := by
  cases first with
  | true => exact Blank.joinLines h
  | false =>
    obtain ⟨b, b', hb, hb', rfl⟩ := h
    refine ⟨_, _, hb.joinLines, hb'.joinLines, ?_⟩
    rw [Text.joinLines_append, joinLines_cons (by decide)]

lemma Joins.led (h : Joins G) (first : Bool) : Joins (Led first G) := by
  rintro t a ⟨c, u, hc, hu, rfl⟩
  exact ⟨_, _, hc.joinLines, h u a hu, Text.joinLines_append c u⟩

lemma Joins.map {β : Type} (h : Joins G) (f : α → β) : Joins (G.map f) := by
  rintro t b ⟨a, ht, rfl⟩
  exact ⟨a, h t a ht, rfl⟩

lemma joins_of_newline_notMem (h : ∀ t a, G t a → '\n' ∉ t) : Joins G := by
  intro t a ht
  rw [joinLines_eq_self (h t a ht)]
  exact ht

lemma joins_quoted : Joins Quoted := by
  refine joins_of_newline_notMem ?_
  rintro t x ⟨raw, cs, hraw, -, rfl⟩
  have hfree := hraw.passable.newline_notMem
  simp [hfree]

lemma joins_signed : Joins Signed := by
  refine joins_of_newline_notMem ?_
  rintro t n (h | ⟨u, h, rfl⟩)
  · exact (numeral_of_readNumber h).newline_notMem
  · have hfree := (numeral_of_readNumber h).newline_notMem
    simp [hfree]

lemma joins_real : Joins Real := joins_signed.map _

lemma joins_word : Joins Word := by
  rintro t w ⟨n, ht, hrange⟩
  exact ⟨n, joins_signed t _ ht, hrange⟩

lemma joins_sequence (h : Joins G) (first : Bool) : Joins (Sequence G first) := by
  intro t as ht
  induction ht with
  | done hb =>
    rw [Text.joinLines_append]
    exact .done hb.joinLines
  | item ht rest ih =>
    rw [Text.joinLines_append]
    exact .item (h.led _ _ _ ht) ih

lemma Joins.listed (h : Joins G) : Joins (Listed G) := by
  rintro t as ⟨u, hu, rfl⟩
  exact ⟨_, joins_sequence h true u as hu, joinLines_cons (by decide) u⟩

lemma Joins.colon (h : Joins G) : Joins (Colon G) := by
  rintro t a ⟨b, u, hb, hu, rfl⟩
  refine ⟨_, _, hb.joinLines, h.led true u a hu, ?_⟩
  rw [Text.joinLines_append, joinLines_cons (by decide)]

lemma Joins.fresh (h : Joins G) (known : Option α) : Joins (Fresh known G) := by
  rintro t a ⟨hknown, ht⟩
  exact ⟨hknown, h.colon t a ht⟩

lemma joins_anything : Joins Anything := fun _ _ ht => ht.joinLines

lemma joins_foreign {σ : Type} (f : σ) : Joins (Foreign f) := by
  rintro t g ⟨hg, ht⟩
  exact ⟨hg, joins_anything.colon t () ht⟩

section Members

variable {σ : Type} {M : String → σ → Grammar σ}

lemma joins_members (h : ∀ key f, Joins (M key f)) (first : Bool) (f : σ) :
    Joins (Members M first f) := by
  have hquote : '"' ≠ '\n' := by decide
  intro t g ht
  induction ht with
  | done hb =>
    rw [Text.joinLines_append]
    exact .done hb.joinLines
  | member lead key ht rest ih =>
    simp only [Text.joinLines_append, joinLines_cons hquote,
      joinLines_eq_self key.passable.newline_notMem]
    exact .member lead.joinLines key (h _ _ _ _ ht) ih

lemma joins_object (h : ∀ key f, Joins (M key f)) (none : σ) (make : σ → Except Cause α) :
    Joins (Object M none make) := by
  rintro t a ⟨f, ht, ha⟩
  exact ⟨f, joins_members h true none t f ht, ha⟩

end Members

lemma joins_record {O L : Grammar α} (ho : Joins O) (hl : Joins L) : Joins (Record O L) := by
  rintro t a (⟨u, hu, rfl⟩ | ⟨u, hu, rfl⟩)
  · exact .inl ⟨_, ho u a hu, joinLines_cons (by decide) u⟩
  · exact .inr ⟨_, hl u a hu, joinLines_cons (by decide) u⟩

lemma Joins.document (h : Joins G) : Joins (Document G) := by
  rintro s a ⟨b, t, b', hb, ht, hb', rfl⟩
  refine ⟨_, _, _, hb.joinLines, h t a ht, hb'.joinLines, ?_⟩
  rw [Text.joinLines_append, Text.joinLines_append]

/-- A reader of a grammar that joins reads a document also without its line feeds. -/
lemma readDocument_joinLines {read : Reader α} {s : List Char} {a : α} (hread : Reads read G)
    (h : Joins G) (hs : readDocument read s = .ok a) :
    readDocument read (Text.joinLines s) = .ok a := by
  have hdocument : Document G s a := (readDocument_eq_ok_iff hread).mp hs
  exact (readDocument_eq_ok_iff hread).mpr (h.document s a hdocument)

end Json

open Json

namespace Config

lemma joins_step (key : String) (f : Fields) : Joins (Step key f) := by
  unfold Step
  split_ifs
  · exact (joins_quoted.fresh f.password).map _
  · exact (joins_quoted.listed.fresh f.addresses).map _
  · exact (joins_real.fresh f.maxAmount).map _
  · exact (joins_word.fresh f.minConfirmations).map _
  · exact (joins_quoted.fresh f.account).map _
  · exact joins_foreign f

lemma joins_inList : Joins InList := by
  rintro t c ⟨t₀, t₁, t₂, t₃, t₄, b, h₀, h₁, h₂, h₃, h₄, hb, rfl⟩
  refine ⟨_, _, _, _, _, _, joins_quoted.led true t₀ _ h₀, joins_quoted.listed.led false t₁ _ h₁,
    joins_real.led false t₂ _ h₂, joins_word.led false t₃ _ h₃, joins_quoted.led false t₄ _ h₄,
    hb.joinLines, ?_⟩
  simp only [PaymentDrill.Text.joinLines_append]
  rfl

lemma joins_text : Joins Text := joins_record (joins_object joins_step _ _) joins_inList

end Config

namespace Balances

lemma joins_entryStep (key : String) (f : EntryFields) : Joins (EntryStep key f) := by
  unfold EntryStep
  split_ifs
  · exact (joins_quoted.fresh f.account).map _
  · exact (joins_real.fresh f.spendable).map _
  · exact joins_foreign f

lemma joins_entryInList : Joins EntryInList := by
  rintro t e ⟨t₀, t₁, b, h₀, h₁, hb, rfl⟩
  refine ⟨_, _, _, joins_quoted.led true t₀ _ h₀, joins_real.led false t₁ _ h₁, hb.joinLines, ?_⟩
  simp only [PaymentDrill.Text.joinLines_append]
  rfl

lemma joins_entries : Joins Entries :=
  (joins_record (joins_object joins_entryStep _ _) joins_entryInList).listed

lemma joins_balancesStep (key : String) (f : Option Balances) : Joins (Step key f) := by
  unfold Step
  split_ifs
  · exact (joins_entries.fresh f).map some
  · exact joins_foreign f

lemma joins_balancesInList : Joins InList := by
  rintro t e (⟨he, b, hb, rfl⟩ | ⟨u, b, hu, hb, rfl⟩)
  · exact .inl ⟨he, _, hb.joinLines, PaymentDrill.Text.joinLines_append b _⟩
  · refine .inr ⟨_, _, joins_entries.led true u e hu, hb.joinLines, ?_⟩
    simp only [PaymentDrill.Text.joinLines_append]
    rfl

lemma joins_balancesText : Joins Text :=
  joins_record (joins_object joins_balancesStep _ _) joins_balancesInList

end Balances

/-- A text that is a configuration as it stands is the same configuration without its line feeds,
and a text that is a report of balances is the same report. -/
theorem ofText_of_readDocument (s : List Char) :
    (∀ c, readDocument Config.read s = .ok c → Config.ofText s = .ok c) ∧
      ∀ b, readDocument Balances.read s = .ok b → Balances.ofText s = .ok b := by
  constructor
  · intro c hc
    exact readDocument_joinLines Config.reads_read Config.joins_text hc
  · intro b hb
    exact readDocument_joinLines Balances.reads_read Balances.joins_balancesText hb

/-- A configuration that is also a report. There are line feeds between its tokens, also next to its
numbers, and two strings of it have an escaped one. -/
def spread : List Char :=
  ("\x7b\n\"m\"\n:[-1.5e3\n,\x7b\n\"\\n\":\n[\n]\x7d],\"password\":\"p\\nq\"\n" ++
    ",\"address\":[\n\"a\"],\"maxtxamount\":\n2.5\n,\"minconf\":1\n,\"account\":\"\"" ++
      ",\n\"balances\":[[\"x\",\n7]\n]\n\x7d").toList

theorem ofText_spread :
    ∃ c b, c = ⟨"p\nq", ["a"], Binary64.ofDecimal false 25 (-1), 1, ""⟩ ∧
      b = [⟨"x", Binary64.ofNat 7⟩] ∧
      readDocument Config.read spread = .ok c ∧ Config.ofText spread = .ok c ∧
      readDocument Balances.read spread = .ok b ∧ Balances.ofText spread = .ok b := by
  have hconfig : readDocument Config.read spread =
      .ok ⟨"p\nq", ["a"], Binary64.ofDecimal false 25 (-1), 1, ""⟩ := by decide +kernel
  have hreport : readDocument Balances.read spread = .ok [⟨"x", Binary64.ofNat 7⟩] := by
    decide +kernel
  have hconfig' := (ofText_of_readDocument spread).1 _ hconfig
  have hreport' := (ofText_of_readDocument spread).2 _ hreport
  exact ⟨_, _, rfl, rfl, hconfig, hconfig', hreport, hreport'⟩

end PaymentDrill
