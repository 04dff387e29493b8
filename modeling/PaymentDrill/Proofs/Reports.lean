import PaymentDrill.Proofs.Encoding
import PaymentDrill.Proofs.Format
import PaymentDrill.Proofs.Funding
import PaymentDrill.Wallet.Process

/-!
# The format of a report

Which bytes a wallet program can print to report its balances, and what they say. Broken
characters are replaced, line feeds go, and then there is an object with the entries under
one key, or a list with nothing else in it; each entry is an object or a list as well. How
the program ends makes no difference.
-/
namespace PaymentDrill

namespace Json

variable {first : Bool} {t : List Char} {ms : List (String × List Char)} {vs : List (List Char)}

lemma valued_verbatim : Valued Verbatim := fun _ _ h => h.1

/-- Members are none, or have the form of members behind their lead. -/
lemma Pairs.form (h : Pairs first t ms) : (∃ b, Blank b ∧ t = b ++ ['}']) ∨
    ∃ c u, Lead first c ∧ Form .members u ∧ t = c ++ u := by
  induction h with
  | done hb => exact .inl ⟨_, hb, rfl⟩
  | pair lead hkey hv rest ih =>
    refine .inr ⟨_, _, lead, ?_, rfl⟩
    obtain ⟨b₁, w, hb₁, ⟨b₂, v, hb₂, ⟨hform, rfl⟩, rfl⟩, rfl⟩ := hv
    rcases ih with ⟨b₃, hb₃, rfl⟩ | ⟨c, u, ⟨b₃, b₄, hb₃, hb₄, rfl⟩, hu, rfl⟩
    · simpa using Form.lastMember hkey.passable hb₁ hb₂ hform hb₃
    · simpa using Form.member hkey.passable hb₁ hb₂ hform hb₃ hb₄ hu

/-- A record has the form of a value, whatever is asked of its members or items. -/
lemma valued_record {α : Type} (P : List (String × List Char) → α → Prop)
    (Q : List (List Char) → α → Prop) :
    Valued (Record (fun t a => ∃ ms, Pairs true t ms ∧ P ms a) fun t a =>
      ∃ vs, Sequence Verbatim true t vs ∧ Q vs a) := by
  rintro t a (⟨u, ⟨ms, hms, -⟩, rfl⟩ | ⟨u, ⟨vs, hvs, -⟩, rfl⟩)
  · rcases hms.form with ⟨b, hb, rfl⟩ | ⟨c, v, hc, hv, rfl⟩
    · exact .emptyObject hb
    · exact .object hc hv
  · exact valued_verbatim.listed _ vs ⟨u, hvs, rfl⟩

end Json

open Json

namespace Balances

variable {t : List Char} {ms : List (String × List Char)} {e : Balance} {b : Balances}

/-- What becomes of the fields of an entry through some members. -/
@[mk_iff]
structure EntrySettled (ms : List (String × List Char)) (f g : EntryFields) : Prop where
  account : Settles "accountname" Quoted ms f.account g.account
  spendable : Settles "spendable" Real ms f.spendable g.spendable

lemma entrySettled_nil (f g : EntryFields) : EntrySettled [] f g ↔ g = f := by
  obtain ⟨a, x⟩ := f
  obtain ⟨a', x'⟩ := g
  simp [entrySettled_iff]

lemma entrySettled_cons (key : String) (v : List Char) (f g : EntryFields) :
    EntrySettled ((key, v) :: ms) f g ↔
      if key = "accountname" then
        f.account = none ∧ ∃ x, Quoted v x ∧ EntrySettled ms { f with account := some x } g
      else if key = "spendable" then
        f.spendable = none ∧ ∃ x, Real v x ∧ EntrySettled ms { f with spendable := some x } g
      else EntrySettled ms f g := by
  split_ifs
  on_goal 3 => simp [entrySettled_iff, *]
  all_goals
    subst_vars
    simp only [entrySettled_iff, settles_same, settles_other, ne_eq, String.reduceEq,
      not_false_eq_true, ← exists_and_left, and_assoc, and_left_comm, and_comm]

lemma exists_entryStep (key : String) (f g : EntryFields) (t : List Char)
    (ms : List (String × List Char)) :
    (∃ f', EntryStep key f t f' ∧ EntrySettled ms f' g) ↔
      ∃ v, Colon Verbatim t v ∧ EntrySettled ((key, v) :: ms) f g := by
  unfold EntryStep
  simp only [entrySettled_cons]
  split_ifs
  · exact exists_fresh valued_quoted f.account _ _
  · exact exists_fresh valued_real f.spendable _ _
  · exact exists_foreign f _

/-- A name and an amount, each exactly once among other members. -/
structure EntryInObject (ms : List (String × List Char)) (e : Balance) : Prop where
  account : Once "accountname" Quoted ms e.account
  spendable : Once "spendable" Amount ms e.spendable

/-- A name and an amount, and nothing else. -/
def EntryInArray (vs : List (List Char)) (e : Balance) : Prop :=
  ∃ v₀ v₁, vs = [v₀, v₁] ∧ Quoted v₀ e.account ∧ Amount v₁ e.spendable

/-- The format of an entry: an object or a list. -/
def EntryFormat : Grammar Balance :=
  Record (fun t e => ∃ ms, Pairs true t ms ∧ EntryInObject ms e) fun t e =>
    ∃ vs, Sequence Verbatim true t vs ∧ EntryInArray vs e

lemma entryOfFields_eq_ok_iff {f : EntryFields} :
    entryOfFields f = .ok e ↔ f = ⟨some e.account, some e.spendable⟩ := by
  constructor
  · intro h
    obtain ⟨_ | a, _ | x⟩ := f <;> simp only [entryOfFields, reduceCtorEq] at h
    obtain rfl := Except.ok.inj h
    rfl
  · rintro rfl
    rfl

lemma entryObject_iff : Object EntryStep ⟨none, none⟩ entryOfFields t e ↔
    ∃ ms, Pairs true t ms ∧ EntryInObject ms e := by
  have hsettled (ms : List (String × List Char)) :
      EntrySettled ms ⟨none, none⟩ ⟨some e.account, some e.spendable⟩ ↔ EntryInObject ms e := by
    rw [entrySettled_iff, settles_none_some, settles_none_some, real_eq]
    exact ⟨fun h => ⟨h.1, h.2⟩, fun h => ⟨h.1, h.2⟩⟩
  unfold Object
  simp only [entryOfFields_eq_ok_iff, exists_eq_right,
    members_iff_pairs entrySettled_nil exists_entryStep, hsettled]

lemma entryInList_iff : EntryInList t e ↔
    ∃ vs, Sequence Verbatim true t vs ∧ EntryInArray vs e := by
  unfold EntryInList EntryInArray
  rw [← real_eq]
  constructor
  · rintro ⟨t₀, t₁, b, h₀, h₁, hb, rfl⟩
    obtain ⟨v₀, hv₀, h₀⟩ := (led_iff valued_quoted).mp h₀
    obtain ⟨v₁, hv₁, h₁⟩ := (led_iff valued_real).mp h₁
    exact ⟨[v₀, v₁], .item hv₀ (.item hv₁ (.done hb)), v₀, v₁, rfl, h₀, h₁⟩
  · rintro ⟨vs, hvs, v₀, v₁, rfl, h₀, h₁⟩
    obtain - | ⟨hv₀, hvs⟩ := hvs
    obtain - | ⟨hv₁, hb⟩ := hvs
    obtain ⟨hb⟩ := hb
    exact ⟨_, _, _, (led_iff valued_quoted).mpr ⟨v₀, hv₀, h₀⟩,
      (led_iff valued_real).mpr ⟨v₁, hv₁, h₁⟩, hb, rfl⟩

lemma entry_eq : Entry = EntryFormat := by
  unfold Entry EntryFormat
  congr 1
  · ext t e
    exact entryObject_iff
  · ext t e
    exact entryInList_iff

lemma valued_entries : Valued Entries := by
  rw [Entries, entry_eq]
  exact (valued_record EntryInObject EntryInArray).listed

/-- The entries stand under one key, at most once among other members. -/
def InObject (ms : List (String × List Char)) (b : Balances) : Prop :=
  (valuesOf "balances" ms = [] ∧ b = []) ∨ Once "balances" (Listed EntryFormat) ms b

/-- Nothing but the list of entries, or nothing at all. -/
def InArray (vs : List (List Char)) (b : Balances) : Prop :=
  (vs = [] ∧ b = []) ∨ ∃ v, vs = [v] ∧ Listed EntryFormat v b

/-- The format of a report: an object or a list. -/
def Format : Grammar Balances :=
  Record (fun t b => ∃ ms, Pairs true t ms ∧ InObject ms b) fun t b =>
    ∃ vs, Sequence Verbatim true t vs ∧ InArray vs b

lemma exists_step (key : String) (f g : Option Balances) (t : List Char)
    (ms : List (String × List Char)) :
    (∃ f', Step key f t f' ∧ Settles "balances" Entries ms f' g) ↔
      ∃ v, Colon Verbatim t v ∧ Settles "balances" Entries ((key, v) :: ms) f g := by
  unfold Step
  split_ifs with hkey
  · subst hkey
    simp only [settles_same]
    exact exists_fresh valued_entries f _ _
  · simp only [settles_other hkey]
    exact exists_foreign f _

lemma object_iff : (Object Step none fun f => .ok (f.getD [])) t b ↔
    ∃ ms, Pairs true t ms ∧ InObject ms b := by
  have hsettled (ms : List (String × List Char)) :
      (∃ f : Option Balances, Settles "balances" Entries ms none f ∧ f.getD [] = b) ↔
        InObject ms b := by
    unfold InObject
    rw [← entry_eq, ← Entries]
    constructor
    · rintro ⟨f, ⟨hnil, rfl⟩ | ⟨-, b', hb', rfl⟩, rfl⟩
      · exact .inl ⟨hnil, rfl⟩
      · exact .inr hb'
    · rintro (⟨hnil, rfl⟩ | hb)
      · exact ⟨none, .inl ⟨hnil, rfl⟩, rfl⟩
      · exact ⟨some b, .inr ⟨rfl, b, hb, rfl⟩, rfl⟩
  unfold Object
  simp only [Except.ok.injEq, members_iff_pairs (fun _ _ => settles_nil) exists_step,
    ← hsettled]
  constructor
  · rintro ⟨f, ⟨ms, hms, hf⟩, hb⟩
    exact ⟨ms, hms, f, hf, hb⟩
  · rintro ⟨ms, hms, f, hf, hb⟩
    exact ⟨f, ⟨ms, hms, hf⟩, hb⟩

lemma inList_iff : InList t b ↔ ∃ vs, Sequence Verbatim true t vs ∧ InArray vs b := by
  unfold InList InArray
  rw [← entry_eq, ← Entries]
  constructor
  · rintro (⟨rfl, c, hc, rfl⟩ | ⟨u, c, hu, hc, rfl⟩)
    · exact ⟨[], .done hc, .inl ⟨rfl, rfl⟩⟩
    · obtain ⟨v, hv, hu⟩ := (led_iff valued_entries).mp hu
      exact ⟨[v], .item hv (.done hc), .inr ⟨v, rfl, hu⟩⟩
  · rintro ⟨vs, hvs, ⟨rfl, rfl⟩ | ⟨v, rfl, hv⟩⟩
    · obtain ⟨hc⟩ := hvs
      exact .inl ⟨rfl, _, hc, rfl⟩
    · obtain - | ⟨hlead, hc⟩ := hvs
      obtain ⟨hc⟩ := hc
      exact .inr ⟨_, _, (led_iff valued_entries).mpr ⟨v, hlead, hv⟩, hc, rfl⟩

lemma text_eq : Text = Format := by
  unfold Text Format
  congr 1
  · ext t b
    exact object_iff
  · ext t b
    exact inList_iff

/-- A text is read as a report exactly if it has the format without its line feeds. -/
theorem ofText_eq_ok_iff {text : List Char} :
    ofText text = .ok b ↔ Document Format (text.filter (· ≠ '\n')) b := by
  rw [← text_eq]
  exact readDocument_eq_ok_iff reads_read

/-- The amounts of accounts are those of their first entries. -/
structure ByFirst (b : Balances) : Prop where
  listed : ∀ account x, b.spendable? account = some x ↔ ∃ e, b.Lists account e ∧ e.spendable = x
  unlisted : ∀ account, b.spendable? account = none ↔ ∀ e ∈ b, e.account ≠ account

lemma byFirst (b : Balances) : b.ByFirst where
  listed account x := by
    constructor
    · exact lists_of_spendable?
    · rintro ⟨e, ⟨front, back, rfl, hname, hfront⟩, rfl⟩
      induction front with
      | nil => rw [List.nil_append, spendable?_cons, if_pos hname]
      | cons f front ih =>
        rw [List.forall_mem_cons] at hfront
        rw [List.cons_append, spendable?_cons, if_neg hfront.1]
        exact ih hfront.2
  unlisted account := by
    rw [spendable?, Option.map_eq_none_iff, List.find?_eq_none]
    simp only [beq_iff_eq, ne_eq]

end Balances

/-- What a wallet answers that has printed some bytes: the report that they are once broken
characters are replaced and line feeds removed. -/
structure Reported (output : List UInt8) (x : Except Failure Balances) : Prop where
  ok_iff : ∀ b, x = .ok b ↔ ∃ text, Text.Utf8.Repairs output text ∧
    Document Balances.Format (text.filter (· ≠ '\n')) b
  refused_iff : (∃ d, x = .error (.balancesInvalid d)) ↔ ∀ text b, Text.Utf8.Repairs output text →
    ¬ Document Balances.Format (text.filter (· ≠ '\n')) b

lemma reported_decoded (output : List UInt8) : Reported output
    ((Balances.ofText (Text.Utf8.decodeLossy output)).mapError .balancesInvalid) := by
  have hread (b : Balances) : Balances.ofText (Text.Utf8.decodeLossy output) = .ok b ↔
      ∃ text, Text.Utf8.Repairs output text ∧
        Document Balances.Format (text.filter (· ≠ '\n')) b := by
    simp only [Text.Utf8.repairs_iff, exists_eq_left', Balances.ofText_eq_ok_iff]
  constructor
  · intro b
    rw [← hread]
    cases Balances.ofText (Text.Utf8.decodeLossy output) <;> simp [Except.mapError]
  · have hnone : (∀ text b, Text.Utf8.Repairs output text →
        ¬ Document Balances.Format (text.filter (· ≠ '\n')) b) ↔
          ∀ b, Balances.ofText (Text.Utf8.decodeLossy output) ≠ .ok b := by
      simp only [ne_eq, hread, not_exists, not_and]
      exact forall_comm
    rw [hnone]
    cases Balances.ofText (Text.Utf8.decodeLossy output) <;> simp [Except.mapError]

/-- What a wallet program answers depends on nothing but the bytes that it prints, and is the
report that they are, if they are one. An account is looked up in it by its first entry. -/
theorem WalletProgram.balances_exact (p : WalletProgram) (output : List UInt8) :
    (∃ x, Reported output x ∧ ∀ {σ : Type} (host : Host σ) (s s' : σ) (c : Completion),
      p.start host .getBalance [] s = (.ok c, s') → c.output = output →
        (p.balances host s).result = x) ∧ ∀ b : Balances, b.ByFirst := by
  refine ⟨⟨_, reported_decoded output, ?_⟩, Balances.byFirst⟩
  intro σ host s s' c hstart houtput
  subst houtput
  unfold balances
  rw [hstart]

/-- A report with a broken character in a name, a line feed in a number, and two entries of one
account. -/
def muttered : List UInt8 :=
  Text.Utf8.encode "\x7b\"note\":[1,null],\n\"balances\":[[\"x".toList ++ [0xE2, 0x82] ++
    Text.Utf8.encode ("\",2\n5],\x7b\"spendable\":1e2,\"accountname\":\"y\",\"z\":0\x7d," ++
      "[\"y\",3]]\x7d").toList

/-- Surroundings in which every program prints that report and ends as is said. -/
def muttering (exit : Exit) : Host Unit := fun _ _ s =>
  (.ok { output := muttered, exit := exit }, s)

/-- What is made of it. -/
def understood : Balances := [⟨"x\uFFFD", .ofNat 25⟩, ⟨"y", .ofNat 100⟩, ⟨"y", .ofNat 3⟩]

theorem muttered_balances :
    (∀ exit, ((WalletProgram.named "till").balances (muttering exit) ()).result = .ok understood) ∧
      (∃ text, Text.Utf8.Repairs muttered text ∧
        Document Balances.Format (text.filter (· ≠ '\n')) understood) ∧
          ∃ e, understood.Lists "y" e ∧ e.spendable = .ofNat 100 := by
  obtain ⟨⟨x, reported, same⟩, first⟩ := (WalletProgram.named "till").balances_exact muttered
  have starts (exit : Exit) :
      (WalletProgram.named "till").start (muttering exit) .getBalance [] () =
        (.ok { output := muttered, exit := exit }, ()) := by
    unfold WalletProgram.start
    rw [if_neg (by decide)]
    rfl
  have killed : ((WalletProgram.named "till").balances (muttering (.signal 9)) ()).result =
      .ok understood := by decide +kernel
  have answer : x = .ok understood := by
    rw [← killed]
    exact (same _ () () _ (starts (.signal 9)) rfl).symm
  refine ⟨fun exit => ?_, (reported.ok_iff _).mp answer, ?_⟩
  · rw [← answer]
    exact same _ () () _ (starts exit) rfl
  · exact ((first understood).listed "y" (.ofNat 100)).mp (by decide +kernel)

end PaymentDrill
