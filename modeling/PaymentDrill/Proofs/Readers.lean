import Mathlib.Tactic.Lemma
import Mathlib.Tactic.SplitIfs
import PaymentDrill.Json.Record

/-!
# What readers give

A property of everything that a reader can give, whatever the text. It passes from
the reader of an item to the reader of a list, and from the readers of the members
to the reader of a record: there it is an invariant of the fields that are known.
-/
namespace PaymentDrill.Json

lemma bind_eq_ok_iff {ε α β : Type} {x : Except ε α} {f : α → Except ε β} {b : β} :
    (x >>= f) = .ok b ↔ ∃ a, x = .ok a ∧ f a = .ok b := by
  cases x with
  | error e => simp [bind, Except.bind]
  | ok a => simp [bind, Except.bind]

lemma map_eq_ok_iff {ε α β : Type} {x : Except ε α} {f : α → β} {b : β} :
    x.map f = .ok b ↔ ∃ a, x = .ok a ∧ f a = b := by
  cases x with
  | error e => simp [Except.map]
  | ok a => simp [Except.map]

/-- Everything that a reader gives has a property. -/
def Gives {α : Type} (read : Reader α) (P : α → Prop) : Prop :=
  ∀ s a r, read s = .ok (a, r) → P a

section Lists

variable {α : Type} {item : Reader α} {P : α → Prop}

lemma gives_readItems (h : Gives item P) (fuel : Nat) (first : Bool) :
    Gives (readItems item fuel first) fun as => ∀ a ∈ as, P a := by
  induction fuel generalizing first with
  | zero =>
    intro s as r hs
    cases hs
  | succ fuel ih =>
    intro s as r hs
    rw [readItems] at hs
    split at hs
    · cases hs
    · obtain ⟨t, -, heq⟩ := map_eq_ok_iff.mp hs
      obtain ⟨rfl, -⟩ := Prod.mk.inj heq
      simp
    · split at hs
      · cases hs
      · rename_i a t ha
        split at hs
        · cases hs
        · rename_i as' t' has
          obtain ⟨rfl, -⟩ := Prod.mk.inj (Except.ok.inj hs)
          have hhead := h _ a t ha
          have htail := ih false _ as' t' has
          simpa [hhead] using htail

theorem gives_readList (h : Gives item P) : Gives (readList item) fun as => ∀ a ∈ as, P a := by
  intro s as r hs
  unfold readList at hs
  split at hs
  · cases hs
  · split_ifs at hs
    exact gives_readItems h _ _ _ _ _ hs

end Lists

section Records

variable {σ α : Type} {read : Reader α} {P : α → Prop} {I : σ → Prop}

lemma gives_true (read : Reader α) : Gives read fun _ => True := fun _ _ _ _ => trivial

/-- A reading whose value is put into something else. -/
lemma of_map {β : Type} {Q : β → Prop} {f : α × List Char → β × List Char} {s r : List Char} {b : β}
    (h : Gives read P) (hf : ∀ a t, P a → Q (f (a, t)).1) (hs : (read s).map f = .ok (b, r)) :
    Q b := by
  obtain ⟨⟨a, t⟩, ha, heq⟩ := map_eq_ok_iff.mp hs
  have hq := hf a t (h s a t ha)
  rwa [heq] at hq

lemma gives_field (h : Gives read P) (name : String) (known : Option α) :
    Gives (field name known read) P := by
  intro s a r hs
  unfold field at hs
  split_ifs at hs
  split at hs
  · cases hs
  · exact h _ a r hs

lemma gives_listField (h : Gives read P) (name : String) (fields before : Nat) :
    Gives (listField name fields before read) P := by
  intro s a r hs
  unfold listField at hs
  split at hs
  · cases hs
  · split at hs <;> cases hs
  · exact h _ a r hs

lemma gives_unknownMember {f : σ} (h : I f) : Gives (unknownMember f) I := by
  intro s g r hs
  unfold unknownMember at hs
  split at hs
  · cases hs
  · obtain ⟨t, -, heq⟩ := map_eq_ok_iff.mp hs
    obtain ⟨rfl, -⟩ := Prod.mk.inj heq
    exact h

/-- What every member preserves holds of the fields behind the last one. -/
theorem gives_readMembers {member : Member σ} (h : ∀ key f, I f → Gives (member key f) I)
    (fuel : Nat) (first : Bool) {f : σ} (hf : I f) : Gives (readMembers member fuel first f) I := by
  induction fuel generalizing first f with
  | zero =>
    intro s g r hs
    cases hs
  | succ fuel ih =>
    intro s g r hs
    rw [readMembers] at hs
    split at hs
    · cases hs
    · obtain ⟨rfl, -⟩ := Prod.mk.inj (Except.ok.inj hs)
      exact hf
    · split at hs
      · cases hs
      · split at hs
        · cases hs
        · rename_i key _ _ f' t hmember
          have hf' : I f' := h _ f hf _ f' t hmember
          exact ih false hf' _ g r hs

theorem gives_readObject {member : Member σ} {none : σ} {make : σ → Except Cause α}
    (h : ∀ key f, I f → Gives (member key f) I) (hnone : I none)
    (hmake : ∀ f a, I f → make f = .ok a → P a) : Gives (readObject member none make) P := by
  intro s a r hs
  unfold readObject at hs
  split at hs
  · cases hs
  · rename_i f t hf
    split at hs
    · cases hs
    · rename_i a' ha
      obtain ⟨rfl, -⟩ := Prod.mk.inj (Except.ok.inj hs)
      exact hmake f a' (gives_readMembers h _ _ hnone s f t hf) ha

theorem gives_readRecord {name : String} {ofObject ofList : Reader α} (ho : Gives ofObject P)
    (hl : Gives ofList P) : Gives (readRecord name ofObject ofList) P := by
  intro s a r hs
  unfold readRecord at hs
  split at hs
  · cases hs
  · split_ifs at hs
    · exact hl _ a r hs
    · exact ho _ a r hs

lemma of_readDocument {text : List Char} {a : α} (h : Gives read P)
    (hs : readDocument read text = .ok a) : P a := by
  unfold readDocument at hs
  split at hs
  · cases hs
  · rename_i a' r ha
    split at hs
    · obtain rfl := Except.ok.inj hs
      exact h text a' r ha
    · cases hs

end Records

end PaymentDrill.Json
