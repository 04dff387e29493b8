import Mathlib.Tactic.MkIffOfInductiveProp
import PaymentDrill.Proofs.Documents
import PaymentDrill.Proofs.Literals

/-!
# The format of a configuration

Which texts are configurations, and of what, without the order in which they are read.
An object is a sequence of keys and values in which each of five keys occurs exactly
once, wherever it stands and whatever else there is. A list has five values in their
order. The fields that are known in front of a member are the invariant that leads from
one description to the other.
-/
namespace PaymentDrill

namespace Json

variable {α : Type} {G : Grammar α} {first : Bool} {t u v : List Char} {a : α}

/-- Any value, of which the text is kept. -/
def Verbatim : Grammar (List Char) := fun t v => Form .value t ∧ v = t

/-- Every text of the grammar has the form of a value. -/
def Valued (G : Grammar α) : Prop := ∀ t a, G t a → Form .value t

lemma valued_quoted : Valued Quoted := by
  rintro t x ⟨raw, cs, hraw, -, rfl⟩
  exact .text hraw.passable

lemma valued_signed : Valued Signed := by
  rintro t n (h | ⟨u, h, rfl⟩)
  · exact .number (numeral_of_readNumber h)
  · exact .negative (numeral_of_readNumber h)

lemma valued_real : Valued Real := by
  rintro t x ⟨n, hn, -⟩
  exact valued_signed t n hn

lemma valued_word : Valued Word := by
  rintro t w ⟨n, hn, -⟩
  exact valued_signed t _ hn

/-- What follows the first value of a list makes a list of it. -/
lemma Sequence.items {as : List α} (hG : Valued G) (h : Sequence G false u as)
    (hv : Form .value v) : Form .items (v ++ u) := by
  generalize hfirst : false = first at h
  induction h generalizing v with
  | done hb => exact .lastItem hv hb
  | item ht rest ih =>
    subst hfirst
    obtain ⟨c, w, ⟨b, b', hb, hb', rfl⟩, hw, rfl⟩ := ht
    have hrest := ih (hG w _ hw) rfl
    simpa using Form.item hv hb hb' hrest

lemma Valued.listed (hG : Valued G) : Valued (Listed G) := by
  rintro t as ⟨u, hu, rfl⟩
  cases hu with
  | done hb => exact .emptyList hb
  | item ht rest =>
    obtain ⟨b, w, hb, hw, rfl⟩ := ht
    simpa using Form.list hb (rest.items hG (hG w _ hw))

lemma led_iff (hG : Valued G) : Led first G t a ↔ ∃ v, Led first Verbatim t v ∧ G v a := by
  constructor
  · rintro ⟨c, u, hc, hu, rfl⟩
    exact ⟨u, ⟨c, u, hc, ⟨hG u a hu, rfl⟩, rfl⟩, hu⟩
  · rintro ⟨v, ⟨c, u, hc, ⟨-, rfl⟩, rfl⟩, hv⟩
    exact ⟨c, v, hc, hv, rfl⟩

lemma colon_iff (hG : Valued G) : Colon G t a ↔ ∃ v, Colon Verbatim t v ∧ G v a := by
  constructor
  · rintro ⟨b, u, hb, hu, rfl⟩
    obtain ⟨v, hv, ha⟩ := (led_iff hG).mp hu
    exact ⟨v, ⟨b, u, hb, hv, rfl⟩, ha⟩
  · rintro ⟨v, ⟨b, u, hb, hu, rfl⟩, ha⟩
    exact ⟨b, u, hb, (led_iff hG).mpr ⟨v, hu, ha⟩, rfl⟩

/-- The members of an object and its end, from a place between two members on: the keys, and the
texts of their values. -/
inductive Pairs : Bool → List Char → List (String × List Char) → Prop
  | done {first : Bool} {b : List Char} (hb : Blank b) : Pairs first (b ++ ['}']) []
  | pair {first : Bool} {c raw key t u v : List Char} {ms : List (String × List Char)}
      (lead : Lead first c) (hkey : Spells raw key) (hv : Colon Verbatim t v)
      (rest : Pairs false u ms) :
      Pairs first (c ++ '"' :: (raw ++ '"' :: (t ++ u))) ((String.ofList key, v) :: ms)

variable {key name : String} {ms : List (String × List Char)} {known result : Option α}

/-- The values that a key has, in their order. -/
def valuesOf (name : String) (ms : List (String × List Char)) : List (List Char) :=
  (ms.filter (·.1 = name)).map (·.2)

@[simp] lemma valuesOf_nil (name : String) : valuesOf name [] = [] := rfl

@[simp] lemma valuesOf_same (name : String) (v : List Char) (ms : List (String × List Char)) :
    valuesOf name ((name, v) :: ms) = v :: valuesOf name ms := by
  simp [valuesOf]

@[simp] lemma valuesOf_other (h : key ≠ name) (v : List Char) (ms : List (String × List Char)) :
    valuesOf name ((key, v) :: ms) = valuesOf name ms := by
  simp [valuesOf, h]

/-- The key occurs exactly once, and its value is what the grammar says. -/
def Once (name : String) (G : Grammar α) (ms : List (String × List Char)) (a : α) : Prop :=
  ∃ v, valuesOf name ms = [v] ∧ G v a

/-- What becomes of a field through some members: it stays what it is if none of them is the field,
and becomes known if it was not and exactly one is. -/
def Settles (name : String) (G : Grammar α) (ms : List (String × List Char))
    (known result : Option α) : Prop :=
  (valuesOf name ms = [] ∧ result = known) ∨ known = none ∧ ∃ a, Once name G ms a ∧ result = some a

@[simp] lemma settles_nil : Settles name G [] known result ↔ result = known := by
  simp [Settles, Once]

@[simp] lemma settles_other (h : key ≠ name) :
    Settles name G ((key, v) :: ms) known result ↔ Settles name G ms known result := by
  simp [Settles, Once, h]

lemma settles_same : Settles name G ((name, v) :: ms) known result ↔
    known = none ∧ ∃ a, G v a ∧ Settles name G ms (some a) result := by
  simp only [Settles, Once, valuesOf_same]
  constructor
  · rintro (⟨hnil, -⟩ | ⟨hnone, a, ⟨w, hw, ha⟩, hresult⟩)
    · exact absurd hnil (List.cons_ne_nil _ _)
    · obtain ⟨rfl, hrest⟩ := List.cons.inj hw
      exact ⟨hnone, a, ha, .inl ⟨hrest, hresult⟩⟩
  · rintro ⟨hnone, a, ha, ⟨hrest, hresult⟩ | ⟨hsome, -⟩⟩
    · exact .inr ⟨hnone, a, ⟨v, by rw [hrest], ha⟩, hresult⟩
    · cases hsome

lemma settles_none_some : Settles name G ms none (some a) ↔ Once name G ms a := by
  simp [Settles]

/-- A field that is not known yet, in terms of the text of its value. -/
lemma exists_fresh {σ : Type} (hG : Valued G) (known : Option α) (set : α → σ) (P : σ → Prop) :
    (∃ f, (Fresh known G).map set t f ∧ P f) ↔
      ∃ v, Colon Verbatim t v ∧ known = none ∧ ∃ a, G v a ∧ P (set a) := by
  constructor
  · rintro ⟨f, ⟨a, ⟨hknown, ht⟩, rfl⟩, hP⟩
    obtain ⟨v, hv, ha⟩ := (colon_iff hG).mp ht
    exact ⟨v, hv, hknown, a, ha, hP⟩
  · rintro ⟨v, hv, hknown, a, ha, hP⟩
    exact ⟨_, ⟨a, ⟨hknown, (colon_iff hG).mpr ⟨v, hv, ha⟩⟩, rfl⟩, hP⟩

lemma exists_foreign {σ : Type} (f : σ) (P : σ → Prop) :
    (∃ g, Foreign f t g ∧ P g) ↔ ∃ v, Colon Verbatim t v ∧ P f := by
  constructor
  · rintro ⟨g, ⟨rfl, b, u, hb, ⟨c, w, hc, hw, rfl⟩, rfl⟩, hP⟩
    exact ⟨w, ⟨b, c ++ w, hb, ⟨c, w, hc, ⟨hw, rfl⟩, rfl⟩, rfl⟩, hP⟩
  · rintro ⟨v, ⟨b, u, hb, ⟨c, w, hc, ⟨hw, -⟩, rfl⟩, rfl⟩, hP⟩
    exact ⟨f, ⟨rfl, b, c ++ w, hb, ⟨c, w, hc, hw, rfl⟩, rfl⟩, hP⟩

/-- By induction on the members, from the last one to the first. -/
theorem members_iff_pairs {σ : Type} {M : String → σ → Grammar σ}
    {settled : List (String × List Char) → σ → σ → Prop}
    (hnil : ∀ f g, settled [] f g ↔ g = f)
    (hstep : ∀ key f g t ms, (∃ f', M key f t f' ∧ settled ms f' g) ↔
      ∃ v, Colon Verbatim t v ∧ settled ((key, v) :: ms) f g) {f g : σ} :
    Members M first f t g ↔ ∃ ms, Pairs first t ms ∧ settled ms f g := by
  constructor
  · intro h
    induction h with
    | done hb => exact ⟨[], .done hb, (hnil _ _).mpr rfl⟩
    | member lead hkey ht rest ih =>
      obtain ⟨ms, hms, hsettled⟩ := ih
      obtain ⟨v, hv, hsettled'⟩ := (hstep _ _ _ _ _).mp ⟨_, ht, hsettled⟩
      exact ⟨_, .pair lead hkey hv hms, hsettled'⟩
  · rintro ⟨ms, hms, hsettled⟩
    induction hms generalizing f with
    | done hb =>
      obtain rfl := (hnil _ _).mp hsettled
      exact .done hb
    | pair lead hkey hv rest ih =>
      obtain ⟨f', ht, hsettled'⟩ := (hstep _ _ _ _ _).mpr ⟨_, hv, hsettled⟩
      exact .member lead hkey ht (ih hsettled')

end Json

open Json

namespace Config

variable {f g : Fields} {ms : List (String × List Char)} {t : List Char} {c : Config}

/-- What becomes of the fields through some members. -/
@[mk_iff]
structure Settled (ms : List (String × List Char)) (f g : Fields) : Prop where
  password : Settles "password" Quoted ms f.password g.password
  addresses : Settles "address" (Listed Quoted) ms f.addresses g.addresses
  maxAmount : Settles "maxtxamount" Real ms f.maxAmount g.maxAmount
  minConfirmations : Settles "minconf" Word ms f.minConfirmations g.minConfirmations
  account : Settles "account" Quoted ms f.account g.account

lemma settled_nil : Settled [] f g ↔ g = f := by
  obtain ⟨p, as, x, n, a⟩ := f
  obtain ⟨p', as', x', n', a'⟩ := g
  simp [settled_iff]

/-- One member, and then the others. -/
lemma settled_cons (key : String) (v : List Char) : Settled ((key, v) :: ms) f g ↔
    if key = "password" then
      f.password = none ∧ ∃ x, Quoted v x ∧ Settled ms { f with password := some x } g
    else if key = "address" then
      f.addresses = none ∧ ∃ x, Listed Quoted v x ∧ Settled ms { f with addresses := some x } g
    else if key = "maxtxamount" then
      f.maxAmount = none ∧ ∃ x, Real v x ∧ Settled ms { f with maxAmount := some x } g
    else if key = "minconf" then
      f.minConfirmations = none ∧ ∃ x, Word v x ∧ Settled ms { f with minConfirmations := some x } g
    else if key = "account" then
      f.account = none ∧ ∃ x, Quoted v x ∧ Settled ms { f with account := some x } g
    else Settled ms f g := by
  split_ifs
  on_goal 6 => simp [settled_iff, *]
  -- The member settles its own field, and the other four are as they were.
  all_goals
    subst_vars
    simp only [settled_iff, settles_same, settles_other, ne_eq, String.reduceEq, not_false_eq_true,
      ← exists_and_left, and_assoc, and_left_comm, and_comm]

/-- A step from one member to the next. -/
lemma exists_step (key : String) (f g : Fields) (t : List Char) (ms : List (String × List Char)) :
    (∃ f', Step key f t f' ∧ Settled ms f' g) ↔
      ∃ v, Colon Verbatim t v ∧ Settled ((key, v) :: ms) f g := by
  unfold Step
  simp only [settled_cons]
  split_ifs
  · exact exists_fresh valued_quoted f.password _ _
  · exact exists_fresh valued_quoted.listed f.addresses _ _
  · exact exists_fresh valued_real f.maxAmount _ _
  · exact exists_fresh valued_word f.minConfirmations _ _
  · exact exists_fresh valued_quoted f.account _ _
  · exact exists_foreign f _

theorem members_iff {first : Bool} :
    Members Step first f t g ↔ ∃ ms, Pairs first t ms ∧ Settled ms f g :=
  members_iff_pairs (fun _ _ => settled_nil) exists_step

/-- Each of the five keys occurs exactly once, with a value of its type. -/
@[mk_iff]
structure InObject (ms : List (String × List Char)) (c : Config) : Prop where
  password : Once "password" Quoted ms c.password
  addresses : Once "address" (Listed Quoted) ms c.addresses
  maxAmount : Once "maxtxamount" Amount ms c.maxAmount
  minConfirmations : Once "minconf" Unsigned ms c.minConfirmations
  account : Once "account" Quoted ms c.account

lemma ofFields_eq_ok_iff : ofFields f = .ok c ↔
    f = ⟨some c.password, some c.addresses, some c.maxAmount, some c.minConfirmations,
      some c.account⟩ := by
  constructor
  · intro h
    obtain ⟨_ | p, _ | as, _ | x, _ | n, _ | a⟩ := f <;> simp only [ofFields, reduceCtorEq] at h
    obtain rfl := Except.ok.inj h
    rfl
  · rintro rfl
    rfl

/-- If nothing is known in front, everything that is known behind stands in between exactly once. -/
lemma settled_iff_inObject : Settled ms .none ⟨some c.password, some c.addresses, some c.maxAmount,
    some c.minConfirmations, some c.account⟩ ↔ InObject ms c := by
  simp only [settled_iff, inObject_iff, Fields.none, settles_none_some, real_eq, word_eq]

theorem object_iff : Object Step .none ofFields t c ↔ ∃ ms, Pairs true t ms ∧ InObject ms c := by
  constructor
  · rintro ⟨f, hf, hc⟩
    obtain rfl := ofFields_eq_ok_iff.mp hc
    obtain ⟨ms, hms, hsettled⟩ := members_iff.mp hf
    exact ⟨ms, hms, settled_iff_inObject.mp hsettled⟩
  · rintro ⟨ms, hms, hc⟩
    exact ⟨_, members_iff.mpr ⟨ms, hms, settled_iff_inObject.mpr hc⟩, ofFields_eq_ok_iff.mpr rfl⟩

/-- Five values in their order. -/
def InArray (vs : List (List Char)) (c : Config) : Prop := ∃ v₀ v₁ v₂ v₃ v₄,
  vs = [v₀, v₁, v₂, v₃, v₄] ∧ Quoted v₀ c.password ∧ Listed Quoted v₁ c.addresses ∧
    Amount v₂ c.maxAmount ∧ Unsigned v₃ c.minConfirmations ∧ Quoted v₄ c.account

theorem inList_iff : InList t c ↔ ∃ vs, Sequence Verbatim true t vs ∧ InArray vs c := by
  unfold InList InArray
  rw [← real_eq, ← word_eq]
  constructor
  · rintro ⟨t₀, t₁, t₂, t₃, t₄, b, h₀, h₁, h₂, h₃, h₄, hb, rfl⟩
    obtain ⟨v₀, hv₀, h₀⟩ := (led_iff valued_quoted).mp h₀
    obtain ⟨v₁, hv₁, h₁⟩ := (led_iff valued_quoted.listed).mp h₁
    obtain ⟨v₂, hv₂, h₂⟩ := (led_iff valued_real).mp h₂
    obtain ⟨v₃, hv₃, h₃⟩ := (led_iff valued_word).mp h₃
    obtain ⟨v₄, hv₄, h₄⟩ := (led_iff valued_quoted).mp h₄
    refine ⟨[v₀, v₁, v₂, v₃, v₄], ?_, v₀, v₁, v₂, v₃, v₄, rfl, h₀, h₁, h₂, h₃, h₄⟩
    exact .item hv₀ (.item hv₁ (.item hv₂ (.item hv₃ (.item hv₄ (.done hb)))))
  · rintro ⟨vs, hvs, v₀, v₁, v₂, v₃, v₄, rfl, h₀, h₁, h₂, h₃, h₄⟩
    obtain - | ⟨hv₀, hvs⟩ := hvs
    obtain - | ⟨hv₁, hvs⟩ := hvs
    obtain - | ⟨hv₂, hvs⟩ := hvs
    obtain - | ⟨hv₃, hvs⟩ := hvs
    obtain - | ⟨hv₄, hb⟩ := hvs
    obtain ⟨hb⟩ := hb
    exact ⟨_, _, _, _, _, _, (led_iff valued_quoted).mpr ⟨v₀, hv₀, h₀⟩,
      (led_iff valued_quoted.listed).mpr ⟨v₁, hv₁, h₁⟩, (led_iff valued_real).mpr ⟨v₂, hv₂, h₂⟩,
      (led_iff valued_word).mpr ⟨v₃, hv₃, h₃⟩, (led_iff valued_quoted).mpr ⟨v₄, hv₄, h₄⟩, hb, rfl⟩

/-- The format: an object or a list. -/
def Format : Grammar Config :=
  Record (fun t c => ∃ ms, Pairs true t ms ∧ InObject ms c) fun t c =>
    ∃ vs, Sequence Verbatim true t vs ∧ InArray vs c

lemma text_eq : Text = Format := by
  unfold Text Format
  congr 1
  · ext t c
    exact object_iff
  · ext t c
    exact inList_iff

end Config

end PaymentDrill
