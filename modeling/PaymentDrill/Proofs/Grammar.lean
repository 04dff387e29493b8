import PaymentDrill.Json.Record
import PaymentDrill.Proofs.Passing
import PaymentDrill.Proofs.Readers

/-!
# Grammars of wanted values

A grammar says which texts stand for which values, and a reader of a grammar takes its
texts and no others, in front of anything that ends them. Grammars are put together as
the readers are: strings and numbers, then lists, then objects with their members, which
change what is known of the fields one after the other, and at last whole documents.
-/
namespace PaymentDrill.Json

/-- Texts, and the values that they stand for. -/
abbrev Grammar (α : Type) := List Char → α → Prop

/-- The reader takes a text of the grammar and leaves the rest. -/
structure Takes {α : Type} (read : Reader α) (G : Grammar α) : Prop where
  sound : ∀ s a r, read s = .ok (a, r) → ∃ t, G t a ∧ s = t ++ r
  complete : ∀ t a r, G t a → Ends r → read (t ++ r) = .ok (a, r)

/-- What may stand in front of an item or a key: a comma, unless it is the first one. -/
def Lead (first : Bool) (c : List Char) : Prop :=
  if first then Blank c else ∃ b b', Blank b ∧ Blank b' ∧ c = b ++ ',' :: b'

/-- A text behind its lead. -/
def Led {α : Type} (first : Bool) (G : Grammar α) : Grammar α :=
  fun t a => ∃ c u, Lead first c ∧ G u a ∧ t = c ++ u

/-- A reader that does not mind blanks in front. -/
abbrev Reads {α : Type} (read : Reader α) (G : Grammar α) : Prop := Takes read (Led true G)

/-- No text of the grammar starts like a blank, a separator or an end. -/
def Opens {α : Type} (G : Grammar α) : Prop := ∀ t a, G t a → ∃ c u, Opening c ∧ t = c :: u

variable {α : Type} {G : Grammar α} {read : Reader α} {first : Bool} {b c r s t : List Char} {a : α}

lemma Lead.append (h : Lead first c) (hb : Blank b) : Lead first (c ++ b) := by
  cases first with
  | true => exact Blank.append h hb
  | false =>
    obtain ⟨b₁, b₂, hb₁, hb₂, rfl⟩ := h
    exact ⟨b₁, b₂ ++ b, hb₁, hb₂.append hb, by simp⟩

lemma Lead.ends (h : Lead false c) (r : List Char) : Ends (c ++ r) := by
  obtain ⟨b, b', hb, -, rfl⟩ := h
  rw [List.append_assoc]
  exact .blank_append hb (ends_cons (by simp) _)

lemma Led.ends (h : Led false G t a) (r : List Char) : Ends (t ++ r) := by
  obtain ⟨c, u, hc, -, rfl⟩ := h
  rw [List.append_assoc]
  exact hc.ends _

lemma led_of (h : G t a) : Led true G t a := ⟨[], t, blank_nil, h, rfl⟩

/-- A reader that passes over blanks and then goes by the first character. -/
lemma reads_of {f : Char → Reader α} (hopens : Opens G)
    (hread : ∀ s, read s = match skipBlanks s with
      | [] => .error (.before [] .endInValue)
      | c :: r => f c r)
    (sound : ∀ c s a r, f c s = .ok (a, r) → ∃ t, G (c :: t) a ∧ s = t ++ r)
    (complete : ∀ c t a r, G (c :: t) a → Ends r → f c (t ++ r) = .ok (a, r)) : Reads read G where
  sound := by
    intro s a r h
    rw [hread] at h
    split at h
    · cases h
    · rename_i c u hu
      obtain ⟨b, hb, -, rfl⟩ := exists_of_skipBlanks hu
      obtain ⟨t, ht, rfl⟩ := sound c u a r h
      exact ⟨b ++ c :: t, ⟨b, c :: t, hb, ht, rfl⟩, by simp⟩
  complete := by
    rintro t a r ⟨b, u, hb, hu, rfl⟩ hr
    obtain ⟨c, v, hc, rfl⟩ := hopens u a hu
    rw [hread, List.append_assoc, skipBlanks_append hb, List.cons_append, skipBlanks_cons hc.solid]
    exact complete c v a r hu hr

/-- A string in its quotes. -/
def Quoted : Grammar String := fun t x =>
  ∃ raw cs, Spells raw cs ∧ x = String.ofList cs ∧ t = '"' :: (raw ++ ['"'])

lemma opens_quoted : Opens Quoted := by
  rintro t x ⟨raw, cs, -, -, rfl⟩
  exact ⟨'"', _, ⟨by decide, by decide, by decide, by decide⟩, rfl⟩

lemma reads_readString : Reads readString Quoted := by
  refine reads_of opens_quoted (fun _ => rfl) ?_ ?_
  · intro c s x r h
    split_ifs at h with hquote
    obtain ⟨⟨cs, r'⟩, hcs, heq⟩ := map_eq_ok_iff.mp h
    obtain ⟨rfl, rfl⟩ := Prod.mk.inj heq
    obtain ⟨raw, hraw, rfl⟩ := readText_eq_ok_iff.mp hcs
    exact ⟨raw ++ ['"'], ⟨raw, cs, hraw, rfl, by rw [hquote]⟩, by simp⟩
  · rintro c t x r ⟨raw, cs, hraw, rfl, ht⟩ -
    obtain ⟨rfl, rfl⟩ := List.cons.inj ht
    have hread : readText (raw ++ '"' :: r) = .ok (cs, r) :=
      readText_eq_ok_iff.mpr ⟨raw, hraw, rfl⟩
    simp [hread, Except.map]

/-- A number with its sign. What it becomes is what its numeral alone becomes. -/
def Signed : Grammar Number := fun t n =>
  readNumber false t = .ok (n, []) ∨ ∃ u, readNumber true u = .ok (n, []) ∧ t = '-' :: u

lemma readNumber_append {negative : Bool} {n : Number} (h : readNumber negative t = .ok (n, []))
    (hr : Ends r) : readNumber negative (t ++ r) = .ok (n, r) := by
  obtain ⟨u, -, ht, hlocal⟩ := detached_readNumber t n [] h
  rw [List.append_nil] at ht
  exact ht ▸ hlocal r hr

lemma exists_of_readNumber {negative : Bool} {n : Number}
    (h : readNumber negative s = .ok (n, r)) :
    ∃ t, Numeral t ∧ readNumber negative t = .ok (n, []) ∧ s = t ++ r := by
  obtain ⟨t, ht, hs, hlocal⟩ := detached_readNumber s n r h
  have halone := hlocal [] ends_nil
  rw [List.append_nil] at halone
  exact ⟨t, ht, halone, hs⟩

lemma numeral_of_readNumber {negative : Bool} {n : Number}
    (h : readNumber negative t = .ok (n, [])) : Numeral t := by
  obtain ⟨u, hu, ht, -⟩ := detached_readNumber t n [] h
  rw [List.append_nil] at ht
  exact ht ▸ hu

lemma opens_signed : Opens Signed := by
  rintro t n (h | ⟨u, -, rfl⟩)
  · obtain ⟨c, u, hc, rfl⟩ := (numeral_of_readNumber h).exists_cons
    exact ⟨c, u, opening_of_isDigit hc, rfl⟩
  · exact ⟨'-', u, ⟨by decide, by decide, by decide, by decide⟩, rfl⟩

lemma reads_readNumeral (expected : Expected) : Reads (readNumeral expected) Signed := by
  refine reads_of opens_signed (fun _ => rfl) ?_ ?_
  · intro c s n r h
    split_ifs at h with hminus hdigit
    · obtain ⟨t, -, ht, rfl⟩ := exists_of_readNumber h
      exact ⟨t, .inr ⟨t, ht, by rw [hminus]⟩, rfl⟩
    · obtain ⟨t, hnumeral, ht, hs⟩ := exists_of_readNumber h
      obtain ⟨d, u, -, rfl⟩ := hnumeral.exists_cons
      obtain ⟨rfl, rfl⟩ := List.cons.inj hs
      exact ⟨u, .inl ht, rfl⟩
  · rintro c t n r (h | ⟨u, h, ht⟩) hr
    · obtain ⟨d, u, hd, heq⟩ := (numeral_of_readNumber h).exists_cons
      obtain ⟨rfl, rfl⟩ := List.cons.inj heq
      have hminus : c ≠ '-' := ne_of_isDigit hd rfl
      have hread := readNumber_append h hr
      rw [if_neg hminus, if_pos hd]
      exact hread
    · obtain ⟨rfl, rfl⟩ := List.cons.inj ht
      rw [if_pos rfl]
      exact readNumber_append h hr

/-- The texts of a grammar, with something made of their values. -/
def Grammar.map {β : Type} (f : α → β) (G : Grammar α) : Grammar β :=
  fun t b => ∃ a, G t a ∧ b = f a

lemma Takes.map {β : Type} (h : Takes read G) (f : α → β)
    {F : α × List Char → β × List Char} (hF : ∀ a r, F (a, r) = (f a, r)) :
    Takes (fun s => (read s).map F) (G.map f) where
  sound := by
    intro s b r hs
    obtain ⟨⟨a, r'⟩, ha, heq⟩ := map_eq_ok_iff.mp hs
    rw [hF] at heq
    obtain ⟨rfl, rfl⟩ := Prod.mk.inj heq
    obtain ⟨t, ht, rfl⟩ := h.sound s a r' ha
    exact ⟨t, ⟨a, ht, rfl⟩, rfl⟩
  complete := by
    rintro t b r ⟨a, ht, rfl⟩ hr
    rw [h.complete t a r ht hr, Except.map, hF]

lemma led_map {β : Type} (f : α → β) : (Led first G).map f = Led first (G.map f) := by
  funext t b
  apply propext
  constructor
  · rintro ⟨a, ⟨c, u, hc, hu, rfl⟩, rfl⟩
    exact ⟨c, u, hc, ⟨a, hu, rfl⟩, rfl⟩
  · rintro ⟨c, u, hc, ⟨a, hu, rfl⟩, rfl⟩
    exact ⟨a, ⟨c, u, hc, hu, rfl⟩, rfl⟩

lemma Opens.map {β : Type} (h : Opens G) (f : α → β) : Opens (G.map f) := by
  rintro t b ⟨a, ht, rfl⟩
  exact h t a ht

/-- A number as a binary64 value. -/
def Real : Grammar Binary64 := Signed.map Number.toBinary64

lemma reads_readBinary64 : Reads readBinary64 Real := by
  have h := (reads_readNumeral .number).map Number.toBinary64
    (F := fun p => (p.1.toBinary64, p.2)) fun _ _ => rfl
  rwa [led_map] at h

/-- An integer of 32 bits without sign. -/
def Word : Grammar UInt32 := fun t w =>
  ∃ n : Int, Signed t (.integer n) ∧ 0 ≤ n ∧ n < Nat.pow 2 32 ∧ w = UInt32.ofNat n.toNat

lemma opens_word : Opens Word := by
  rintro t w ⟨n, ht, -⟩
  exact opens_signed t _ ht

lemma reads_readWord : Reads readWord Word where
  sound := by
    intro s w r h
    unfold readWord at h
    split at h
    · cases h
    · rename_i n r' hn
      split_ifs at h with hrange
      obtain ⟨rfl, rfl⟩ := Prod.mk.inj (Except.ok.inj h)
      obtain ⟨t, ⟨c, u, hc, hu, rfl⟩, rfl⟩ := (reads_readNumeral .word).sound s _ _ hn
      exact ⟨_, ⟨c, u, hc, ⟨n, hu, hrange.1, hrange.2, rfl⟩, rfl⟩, rfl⟩
    · cases h
  complete := by
    rintro t w r ⟨c, u, hc, ⟨n, hu, hlow, hhigh, rfl⟩, rfl⟩ hr
    have hread := (reads_readNumeral .word).complete (c ++ u) _ r ⟨c, u, hc, hu, rfl⟩ hr
    unfold readWord
    rw [hread]
    exact if_pos ⟨hlow, hhigh⟩

/-- The items of a list and its end, from a place between two items on. -/
inductive Sequence (G : Grammar α) : Bool → List Char → List α → Prop
  | done {first : Bool} {b : List Char} (hb : Blank b) : Sequence G first (b ++ [']']) []
  | item {first : Bool} {t u : List Char} {a : α} {as : List α} (ht : Led first G t a)
      (rest : Sequence G false u as) : Sequence G first (t ++ u) (a :: as)

def Listed (G : Grammar α) : Grammar (List α) :=
  fun t as => ∃ u, Sequence G true u as ∧ t = '[' :: u

lemma opens_listed (G : Grammar α) : Opens (Listed G) := by
  rintro t as ⟨u, -, rfl⟩
  exact ⟨'[', u, ⟨by decide, by decide, by decide, by decide⟩, rfl⟩

lemma exists_of_nextItem {o : Option (List Char)} (h : nextItem first s = .ok o) :
    (o = none ∧ ∃ b r, Blank b ∧ s = b ++ ']' :: r) ∨
      ∃ c r, o = some r ∧ Lead first c ∧ s = c ++ r := by
  unfold nextItem at h
  split at h
  · cases h
  · rename_i c u hu
    obtain ⟨b, hb, -, rfl⟩ := exists_of_skipBlanks hu
    split_ifs at h with hend hfirst hcomma
    · obtain rfl := Except.ok.inj h
      exact .inl ⟨rfl, b, u, hb, by rw [hend]⟩
    · obtain rfl := Except.ok.inj h
      exact .inr ⟨b, c :: u, rfl, by rw [hfirst]; exact hb, rfl⟩
    · rw [not_not] at hcomma
      split at h
      · cases h
      · rename_i d v hv
        obtain ⟨b', hb', -, rfl⟩ := exists_of_skipBlanks hv
        split_ifs at h
        obtain rfl := Except.ok.inj h
        refine .inr ⟨b ++ ',' :: b', d :: v, rfl, ?_, by rw [hcomma]; simp⟩
        rw [eq_false_of_ne_true hfirst]
        exact ⟨b, b', hb, hb', rfl⟩

lemma nextItem_end (hb : Blank b) (first : Bool) (r : List Char) :
    nextItem first (b ++ ']' :: r) = .ok none := by
  unfold nextItem
  rw [skipBlanks_append hb, skipBlanks_cons (by decide)]
  rfl

lemma nextItem_lead {d : Char} (h : Lead first c) (hd : Opening d) (r : List Char) :
    nextItem first (c ++ d :: r) = .ok (some (d :: r)) := by
  unfold nextItem
  cases first with
  | true =>
    rw [skipBlanks_append h, skipBlanks_cons hd.solid]
    dsimp only
    rw [if_neg hd.bracket]
    rfl
  | false =>
    obtain ⟨b, b', hb, hb', rfl⟩ := h
    rw [List.append_assoc, skipBlanks_append hb, List.cons_append, skipBlanks_cons (by decide)]
    dsimp only
    rw [skipBlanks_append hb', skipBlanks_cons hd.solid]
    dsimp only
    rw [if_neg hd.bracket]
    rfl

lemma endList_eq_ok_iff : endList s = .ok r ↔ ∃ b, Blank b ∧ s = b ++ ']' :: r := by
  constructor
  · intro h
    unfold endList at h
    split at h
    · cases h
    · rename_i c u hu
      obtain ⟨b, hb, -, rfl⟩ := exists_of_skipBlanks hu
      split_ifs at h with hend hcomma
      · obtain rfl := Except.ok.inj h
        exact ⟨b, hb, by rw [hend]⟩
      · split at h <;> cases h
  · rintro ⟨b, hb, rfl⟩
    unfold endList
    rw [skipBlanks_append hb, skipBlanks_cons (by decide)]
    rfl

lemma Sequence.ends {as : List α} (h : Sequence G false t as) (r : List Char) : Ends (t ++ r) := by
  cases h with
  | done hb =>
    rw [List.append_assoc]
    exact .blank_append hb (ends_cons (by simp) r)
  | item ht rest =>
    rw [List.append_assoc]
    exact ht.ends _

lemma sound_item (h : Reads read G) {u : List Char} (hnext : nextItem first s = .ok (some u))
    (hread : read u = .ok (a, r)) : ∃ t, Led first G t a ∧ s = t ++ r := by
  rcases exists_of_nextItem hnext with ⟨hnone, -⟩ | ⟨c, v, hsome, hc, rfl⟩
  · cases hnone
  · obtain rfl := Option.some.inj hsome
    obtain ⟨t, ⟨b, w, hb, hw, rfl⟩, rfl⟩ := h.sound u a r hread
    exact ⟨c ++ b ++ w, ⟨c ++ b, w, hc.append hb, hw, rfl⟩, by simp⟩

lemma complete_item (h : Reads read G) (hopens : Opens G) (ht : Led first G t a) (hr : Ends r) :
    ∃ u, nextItem first (t ++ r) = .ok (some u) ∧ read u = .ok (a, r) := by
  obtain ⟨c, u, hc, hu, rfl⟩ := ht
  obtain ⟨d, v, hd, rfl⟩ := hopens u a hu
  refine ⟨d :: v ++ r, ?_, h.complete (d :: v) a r (led_of hu) hr⟩
  rw [List.append_assoc, List.cons_append]
  exact nextItem_lead hc hd (v ++ r)

lemma Led.length_pos (hopens : Opens G) (ht : Led first G t a) : 0 < t.length := by
  obtain ⟨c, u, -, hu, rfl⟩ := ht
  obtain ⟨d, v, -, rfl⟩ := hopens u a hu
  simp only [List.length_append, List.length_cons]
  omega

lemma sound_readItems (h : Reads read G) {fuel : Nat} {as : List α}
    (hs : readItems read fuel first s = .ok (as, r)) :
    ∃ t, Sequence G first t as ∧ s = t ++ r := by
  induction fuel generalizing first s as with
  | zero => cases hs
  | succ fuel ih =>
    rw [readItems] at hs
    split at hs
    · cases hs
    · obtain ⟨r', hend, heq⟩ := map_eq_ok_iff.mp hs
      obtain ⟨rfl, rfl⟩ := Prod.mk.inj heq
      obtain ⟨b, hb, rfl⟩ := endList_eq_ok_iff.mp hend
      exact ⟨_, .done hb, by simp⟩
    · rename_i u hu
      split at hs
      · cases hs
      rename_i a v ha
      obtain ⟨t, ht, rfl⟩ := sound_item h hu ha
      split at hs
      · cases hs
      rename_i as' r' has
      obtain ⟨rfl, rfl⟩ := Prod.mk.inj (Except.ok.inj hs)
      obtain ⟨x, hx, rfl⟩ := ih has
      exact ⟨t ++ x, .item ht hx, by simp⟩

lemma complete_readItems (h : Reads read G) (hopens : Opens G) {fuel : Nat} {as : List α}
    (ht : Sequence G first t as) (hfuel : t.length ≤ fuel) (r : List Char) :
    readItems read fuel first (t ++ r) = .ok (as, r) := by
  induction ht generalizing fuel with
  | @done first b hb =>
    obtain ⟨fuel, rfl⟩ := exists_fuel hfuel (by simp)
    have hend : endList (b ++ ']' :: r) = .ok r := endList_eq_ok_iff.mpr ⟨b, hb, rfl⟩
    rw [List.append_assoc, List.singleton_append, readItems, nextItem_end hb]
    dsimp only
    rw [hend]
    rfl
  | @item first t u a as ht rest ih =>
    have hpos := ht.length_pos hopens
    obtain ⟨fuel, rfl⟩ := exists_fuel hfuel (by simp only [List.length_append]; omega)
    obtain ⟨v, hnext, hread⟩ := complete_item h hopens ht (rest.ends r)
    have hrest : readItems read fuel false (u ++ r) = .ok (as, r) := ih (by simp at hfuel; omega)
    rw [List.append_assoc, readItems, hnext]
    dsimp only
    rw [hread]
    dsimp only
    rw [hrest]

lemma reads_readList (h : Reads read G) (hopens : Opens G) : Reads (readList read) (Listed G) := by
  refine reads_of (opens_listed G) (fun _ => rfl) ?_ ?_
  · intro c s as r hs
    split_ifs at hs with hc
    obtain ⟨t, ht, rfl⟩ := sound_readItems h hs
    exact ⟨t, ⟨t, ht, by rw [hc]⟩, rfl⟩
  · rintro c t as r ⟨u, hu, heq⟩ -
    obtain ⟨rfl, rfl⟩ := List.cons.inj heq
    rw [if_pos rfl]
    exact complete_readItems h hopens hu (by simp; omega) r

/-- A field of a record in the form of a list. -/
lemma takes_listField (h : Reads read G) (hopens : Opens G) (name : String) (fields before : Nat) :
    Takes (listField name fields before read) (Led (before == 0) G) where
  sound := by
    intro s a r hs
    unfold listField at hs
    split at hs
    · cases hs
    · split at hs <;> cases hs
    · rename_i u hu
      exact sound_item h hu hs
  complete := by
    intro t a r ht hr
    obtain ⟨u, hnext, hread⟩ := complete_item h hopens ht hr
    unfold listField
    rw [hnext]
    exact hread

/-- A value behind the colon of its key. -/
def Colon (G : Grammar α) : Grammar α :=
  fun t a => ∃ b u, Blank b ∧ Led true G u a ∧ t = b ++ ':' :: u

/-- The value of a field that is not known yet. -/
def Fresh (known : Option α) (G : Grammar α) : Grammar α := fun t a => known = none ∧ Colon G t a

lemma takes_field (h : Reads read G) (name : String) (known : Option α) :
    Takes (field name known read) (Fresh known G) where
  sound := by
    intro s a r hs
    unfold field at hs
    split_ifs at hs with hknown
    split at hs
    · cases hs
    · rename_i u hu
      obtain ⟨b, hb, rfl⟩ := exists_of_colon hu
      obtain ⟨t, ht, rfl⟩ := h.sound u a r hs
      exact ⟨b ++ ':' :: t, ⟨by simpa using hknown, b, t, hb, ht, rfl⟩, by simp⟩
  complete := by
    rintro t a r ⟨rfl, b, u, hb, hu, rfl⟩ hr
    have hread := h.complete u a r hu hr
    unfold field
    rw [List.append_assoc, List.cons_append, colon_append hb]
    exact hread

/-- Any value, of which nothing is kept. -/
def Anything : Grammar Unit := fun t _ => Form .value t

/-- The value of a member that is no field. -/
def Foreign {σ : Type} (f : σ) : Grammar σ := fun t g => g = f ∧ Colon Anything t ()

lemma takes_unknownMember {σ : Type} (f : σ) : Takes (unknownMember f) (Foreign f) where
  sound := by
    intro s g r hs
    unfold unknownMember at hs
    split at hs
    · cases hs
    · rename_i u hu
      obtain ⟨b, hb, rfl⟩ := exists_of_colon hu
      obtain ⟨v, hv, heq⟩ := map_eq_ok_iff.mp hs
      obtain ⟨rfl, rfl⟩ := Prod.mk.inj heq
      obtain ⟨b', t, hb', ht, rfl⟩ := exists_of_skip hv
      exact ⟨b ++ ':' :: (b' ++ t), ⟨rfl, b, b' ++ t, hb, ⟨b', t, hb', ht, rfl⟩, rfl⟩, by simp⟩
  complete := by
    rintro t g r ⟨rfl, b, u, hb, ⟨b', v, hb', hv, rfl⟩, rfl⟩ hr
    have hskip := skip_append hv hb' hr
    unfold unknownMember
    rw [List.append_assoc, List.cons_append, colon_append hb, List.append_assoc]
    dsimp only
    rw [hskip]
    rfl

section Members

variable {σ : Type} {M : String → σ → Grammar σ} {member : Member σ} {f g : σ}

/-- The members of an object and its end, from a place between two members on. Each one turns
what is known of the fields into something else. -/
inductive Members (M : String → σ → Grammar σ) : Bool → σ → List Char → σ → Prop
  | done {first : Bool} {f : σ} {b : List Char} (hb : Blank b) : Members M first f (b ++ ['}']) f
  | member {first : Bool} {f g h : σ} {c raw key t u : List Char} (lead : Lead first c)
      (hkey : Spells raw key) (ht : M (String.ofList key) f t g) (rest : Members M false g u h) :
      Members M first f (c ++ '"' :: (raw ++ '"' :: (t ++ u))) h

lemma Members.ends (h : Members M false f t g) (r : List Char) : Ends (t ++ r) := by
  cases h with
  | done hb =>
    rw [List.append_assoc]
    exact .blank_append hb (ends_cons (by simp) r)
  | member lead hkey ht rest =>
    rw [List.append_assoc]
    exact lead.ends _

lemma exists_of_nextKey {o : Option (List Char)} (h : nextKey first s = .ok o) :
    (o = none ∧ ∃ b r, Blank b ∧ s = b ++ '}' :: r) ∨
      ∃ c r, o = some r ∧ Lead first c ∧ s = c ++ '"' :: r := by
  unfold nextKey at h
  split at h
  · cases h
  · rename_i c u hu
    obtain ⟨b, hb, -, rfl⟩ := exists_of_skipBlanks hu
    split_ifs at h with hend hfirst hquote hcomma
    · obtain rfl := Except.ok.inj h
      exact .inl ⟨rfl, b, u, hb, by rw [hend]⟩
    · obtain rfl := Except.ok.inj h
      exact .inr ⟨b, u, rfl, by rw [hfirst]; exact hb, by rw [hquote]⟩
    · rw [not_not] at hcomma
      split at h
      · cases h
      · rename_i d v hv
        obtain ⟨b', hb', -, rfl⟩ := exists_of_skipBlanks hv
        split_ifs at h with hquote
        obtain rfl := Except.ok.inj h
        refine .inr ⟨b ++ ',' :: b', v, rfl, ?_, by rw [hcomma, hquote]; simp⟩
        rw [eq_false_of_ne_true hfirst]
        exact ⟨b, b', hb, hb', rfl⟩

lemma nextKey_end (hb : Blank b) (first : Bool) (r : List Char) :
    nextKey first (b ++ '}' :: r) = .ok none := by
  unfold nextKey
  rw [skipBlanks_append hb, skipBlanks_cons (by decide)]
  rfl

lemma nextKey_lead (h : Lead first c) (r : List Char) :
    nextKey first (c ++ '"' :: r) = .ok (some r) := by
  unfold nextKey
  cases first with
  | true =>
    rw [skipBlanks_append h, skipBlanks_cons (by decide)]
    rfl
  | false =>
    obtain ⟨b, b', hb, hb', rfl⟩ := h
    rw [List.append_assoc, skipBlanks_append hb, List.cons_append, skipBlanks_cons (by decide)]
    dsimp only
    rw [skipBlanks_append hb', skipBlanks_cons (by decide)]
    rfl

lemma behindEnd_append (hb : Blank b) (r : List Char) : behindEnd (b ++ '}' :: r) = r := by
  unfold behindEnd
  rw [skipBlanks_append hb, skipBlanks_cons (by decide)]
  rfl

lemma sound_readMembers (hmember : ∀ key f, Takes (member key f) (M key f)) {fuel : Nat}
    (hs : readMembers member fuel first f s = .ok (g, r)) :
    ∃ t, Members M first f t g ∧ s = t ++ r := by
  induction fuel generalizing first f s with
  | zero => cases hs
  | succ fuel ih =>
    rw [readMembers] at hs
    split at hs
    · cases hs
    · rename_i hnext
      obtain ⟨rfl, rfl⟩ := Prod.mk.inj (Except.ok.inj hs)
      rcases exists_of_nextKey hnext with ⟨-, b, r', hb, rfl⟩ | ⟨c, r', hsome, -⟩
      · exact ⟨b ++ ['}'], .done hb, by rw [behindEnd_append hb]; simp⟩
      · cases hsome
    · rename_i u hnext
      rcases exists_of_nextKey hnext with ⟨hnone, -⟩ | ⟨c, v, hsome, hc, rfl⟩
      · cases hnone
      obtain rfl := Option.some.inj hsome
      split at hs
      · cases hs
      rename_i key w hkey
      obtain ⟨raw, hraw, rfl⟩ := readText_eq_ok_iff.mp hkey
      split at hs
      · cases hs
      rename_i f' x hf
      obtain ⟨t, ht, rfl⟩ := (hmember _ f).sound _ f' _ hf
      obtain ⟨y, hy, rfl⟩ := ih hs
      exact ⟨_, .member hc hraw ht hy, by simp⟩

lemma complete_readMembers (hmember : ∀ key f, Takes (member key f) (M key f)) {fuel : Nat}
    (ht : Members M first f t g) (hfuel : t.length ≤ fuel) (r : List Char) :
    readMembers member fuel first f (t ++ r) = .ok (g, r) := by
  induction ht generalizing fuel with
  | @done first f b hb =>
    obtain ⟨fuel, rfl⟩ := exists_fuel hfuel (by simp)
    rw [List.append_assoc, List.singleton_append, readMembers, nextKey_end hb]
    dsimp only
    rw [behindEnd_append hb]
  | @member first f f' g c raw key t u lead hkey ht rest ih =>
    obtain ⟨fuel, rfl⟩ := exists_fuel hfuel (by simp)
    have htext : readText (raw ++ '"' :: (t ++ (u ++ r))) = .ok (key, t ++ (u ++ r)) :=
      readText_eq_ok_iff.mpr ⟨raw, hkey, rfl⟩
    have hstep := (hmember _ f).complete t f' (u ++ r) ht (rest.ends r)
    have hrest : readMembers member fuel false f' (u ++ r) = .ok (g, r) :=
      ih (by simp at hfuel; omega)
    have hassoc : c ++ '"' :: (raw ++ '"' :: (t ++ u)) ++ r =
        c ++ '"' :: (raw ++ '"' :: (t ++ (u ++ r))) := by simp
    rw [hassoc, readMembers, nextKey_lead lead]
    dsimp only
    rw [htext]
    dsimp only
    rw [hstep]
    dsimp only
    rw [hrest]

/-- What stands behind the opening brace of an object, and what its members make together. -/
def Object (M : String → σ → Grammar σ) (none : σ) (make : σ → Except Cause α) : Grammar α :=
  fun t a => ∃ f, Members M true none t f ∧ make f = .ok a

lemma takes_readObject (hmember : ∀ key f, Takes (member key f) (M key f)) (none : σ)
    (make : σ → Except Cause α) : Takes (readObject member none make) (Object M none make) where
  sound := by
    intro s a r hs
    unfold readObject at hs
    split at hs
    · cases hs
    · rename_i f u hf
      split at hs
      · cases hs
      · rename_i a' ha
        obtain ⟨rfl, rfl⟩ := Prod.mk.inj (Except.ok.inj hs)
        obtain ⟨t, ht, rfl⟩ := sound_readMembers hmember hf
        exact ⟨t, ⟨f, ht, ha⟩, rfl⟩
  complete := by
    rintro t a r ⟨f, ht, ha⟩ -
    have hread : readMembers member ((t ++ r).length + 1) true none (t ++ r) = .ok (f, r) :=
      complete_readMembers hmember ht (by simp only [List.length_append]; omega) r
    unfold readObject
    rw [hread]
    dsimp only
    rw [ha]

end Members

/-- A record as an object or as a list. -/
def Record (O L : Grammar α) : Grammar α :=
  fun t a => (∃ u, O u a ∧ t = '{' :: u) ∨ ∃ u, L u a ∧ t = '[' :: u

lemma opens_record (O L : Grammar α) : Opens (Record O L) := by
  rintro t a (⟨u, -, rfl⟩ | ⟨u, -, rfl⟩)
  · exact ⟨'{', u, ⟨by decide, by decide, by decide, by decide⟩, rfl⟩
  · exact ⟨'[', u, ⟨by decide, by decide, by decide, by decide⟩, rfl⟩

lemma reads_readRecord {ofObject ofList : Reader α} {O L : Grammar α} (ho : Takes ofObject O)
    (hl : Takes ofList L) (name : String) :
    Reads (readRecord name ofObject ofList) (Record O L) := by
  refine reads_of (opens_record O L) (fun _ => rfl) ?_ ?_
  · intro c s a r hs
    split_ifs at hs with hlist hobject
    · obtain ⟨t, ht, rfl⟩ := hl.sound s a r hs
      exact ⟨t, .inr ⟨t, ht, by rw [hlist]⟩, rfl⟩
    · obtain ⟨t, ht, rfl⟩ := ho.sound s a r hs
      exact ⟨t, .inl ⟨t, ht, by rw [hobject]⟩, rfl⟩
  · rintro c t a r (⟨u, hu, heq⟩ | ⟨u, hu, heq⟩) hr
    · obtain ⟨rfl, rfl⟩ := List.cons.inj heq
      exact ho.complete t a r hu hr
    · obtain ⟨rfl, rfl⟩ := List.cons.inj heq
      exact hl.complete t a r hu hr

/-- A text with nothing but blanks around it. -/
def Document (G : Grammar α) : Grammar α :=
  fun s a => ∃ b t b', Blank b ∧ G t a ∧ Blank b' ∧ s = b ++ (t ++ b')

/-- A document is read exactly if it is a text of the grammar, and read as that. -/
theorem readDocument_eq_ok_iff (h : Reads read G) :
    readDocument read s = .ok a ↔ Document G s a := by
  constructor
  · intro hs
    unfold readDocument at hs
    split at hs
    · cases hs
    · rename_i a' r ha
      split at hs
      · rename_i hr
        obtain rfl := Except.ok.inj hs
        obtain ⟨u, ⟨b, t, hb, ht, rfl⟩, rfl⟩ := h.sound s a' r ha
        exact ⟨b, t, r, hb, ht, skipBlanks_eq_nil_iff.mp hr, by simp⟩
      · cases hs
  · rintro ⟨b, t, b', hb, ht, hb', rfl⟩
    have hends : Ends b' := by simpa using Ends.blank_append hb' ends_nil
    have hread := h.complete (b ++ t) a b' ⟨b, t, hb, ht, rfl⟩ hends
    unfold readDocument
    rw [← List.append_assoc, hread]
    dsimp only
    rw [skipBlanks_eq_nil_iff.mpr hb']

end PaymentDrill.Json
