import PaymentDrill.Proofs.Numerals

/-!
# Values that are passed over

The form of any value, whether it makes sense or not: strings with any escapes, numbers
of any size, lists and objects to any depth. Passing over takes one such value, and
every such value can be passed over. A list is described from its first item on up to
its closing bracket, and an object from its first member on, as they are read.
-/
namespace PaymentDrill.Json

inductive Part where
  | value
  | items
  | members
  deriving DecidableEq

/-- A value that is named by a word. -/
def Named (t : List Char) : Prop :=
  t = ['n', 'u', 'l', 'l'] ∨ t = ['t', 'r', 'u', 'e'] ∨ t = ['f', 'a', 'l', 's', 'e']

inductive Form : Part → List Char → Prop
  | text {raw : List Char} (inner : Passable raw) : Form .value ('"' :: (raw ++ ['"']))
  | named {t : List Char} (inner : Named t) : Form .value t
  | number {t : List Char} (inner : Numeral t) : Form .value t
  | negative {t : List Char} (inner : Numeral t) : Form .value ('-' :: t)
  | emptyList {b : List Char} (hb : Blank b) : Form .value ('[' :: (b ++ [']']))
  | list {b t : List Char} (hb : Blank b) (inner : Form .items t) : Form .value ('[' :: (b ++ t))
  | emptyObject {b : List Char} (hb : Blank b) : Form .value ('{' :: (b ++ ['}']))
  | object {b t : List Char} (hb : Blank b) (inner : Form .members t) :
      Form .value ('{' :: (b ++ t))
  | lastItem {v b : List Char} (hv : Form .value v) (hb : Blank b) : Form .items (v ++ (b ++ [']']))
  | item {v b b' t : List Char} (hv : Form .value v) (hb : Blank b) (hb' : Blank b')
      (rest : Form .items t) : Form .items (v ++ (b ++ ',' :: (b' ++ t)))
  | lastMember {raw b₁ b₂ v b₃ : List Char} (key : Passable raw) (hb₁ : Blank b₁) (hb₂ : Blank b₂)
      (hv : Form .value v) (hb₃ : Blank b₃) :
      Form .members ('"' :: (raw ++ '"' :: (b₁ ++ ':' :: (b₂ ++ (v ++ (b₃ ++ ['}']))))))
  | member {raw b₁ b₂ v b₃ b₄ t : List Char} (key : Passable raw) (hb₁ : Blank b₁)
      (hb₂ : Blank b₂) (hv : Form .value v) (hb₃ : Blank b₃) (hb₄ : Blank b₄)
      (rest : Form .members t) :
      Form .members ('"' :: (raw ++ '"' :: (b₁ ++ ':' :: (b₂ ++ (v ++ (b₃ ++ ',' :: (b₄ ++ t)))))))

variable {b r s t u : List Char} {c d : Char} {fuel : Nat} {p : Part}

lemma ne_of_isDigit (hc : c.isDigit = true) (hd : d.isDigit = false) : c ≠ d := by
  rintro rfl
  exact Bool.noConfusion (hc.symm.trans hd)

lemma isBlank_eq_true_iff : isBlank c = true ↔ c = ' ' ∨ c = '\n' ∨ c = '\t' ∨ c = '\r' := by
  simp [isBlank, or_assoc]

lemma isBlank_of_isDigit (hc : c.isDigit = true) : isBlank c = false := by
  refine eq_false_of_ne_true fun hb => ?_
  rcases isBlank_eq_true_iff.mp hb with rfl | rfl | rfl | rfl <;> cases hc

lemma Numeral.exists_cons (h : Numeral t) : ∃ c u, c.isDigit = true ∧ t = c :: u := by
  obtain ⟨w, u, rfl | ⟨⟨hne, hall⟩, -⟩, -, rfl⟩ := h
  · exact ⟨'0', u, rfl, rfl⟩
  · obtain ⟨c, ds, rfl⟩ := List.exists_cons_of_ne_nil hne
    exact ⟨c, ds ++ u, hall c (by simp), rfl⟩

/-- What starts a value is no blank, no separator and no closing bracket. -/
structure Opening (c : Char) : Prop where
  solid : isBlank c = false
  comma : c ≠ ','
  bracket : c ≠ ']'
  brace : c ≠ '}'

lemma opening_of_isDigit (hc : c.isDigit = true) : Opening c where
  solid := isBlank_of_isDigit hc
  comma := ne_of_isDigit hc rfl
  bracket := ne_of_isDigit hc rfl
  brace := ne_of_isDigit hc rfl

lemma Form.exists_cons (h : Form .value t) : ∃ c u, Opening c ∧ t = c :: u := by
  cases h with
  | number inner =>
    obtain ⟨c, u, hc, rfl⟩ := inner.exists_cons
    exact ⟨c, u, opening_of_isDigit hc, rfl⟩
  | named inner =>
    rcases inner with rfl | rfl | rfl <;>
      exact ⟨_, _, ⟨by decide, by decide, by decide, by decide⟩, rfl⟩
  | _ => exact ⟨_, _, ⟨by decide, by decide, by decide, by decide⟩, rfl⟩

lemma Blank.append (hs : Blank s) (ht : Blank t) : Blank (s ++ t) :=
  fun c hc => (List.mem_append.mp hc).elim (hs c) (ht c)

/-- Behind a value there is no more of it, whatever blanks come first. -/
lemma Ends.blank_append (hb : Blank b) (hr : Ends r) : Ends (b ++ r) := by
  cases b with
  | nil => exact hr
  | cons c b =>
    intro d hd
    obtain rfl : c = d := by simpa using hd
    rcases isBlank_eq_true_iff.mp (hb c (by simp)) with rfl | rfl | rfl | rfl <;> decide

lemma ends_cons (hc : c = ',' ∨ c = ']' ∨ c = '}') (r : List Char) : Ends (c :: r) := by
  intro d hd
  obtain rfl : c = d := by simpa using hd
  rcases hc with rfl | rfl | rfl <;> decide

lemma exists_of_colon (h : colon s = .ok r) : ∃ b, Blank b ∧ s = b ++ ':' :: r := by
  unfold colon at h
  split at h
  · cases h
  · rename_i c u hu
    split_ifs at h with hc
    obtain rfl := Except.ok.inj h
    obtain ⟨b, hb, -, hs⟩ := exists_of_skipBlanks hu
    exact ⟨b, hb, hc ▸ hs⟩

lemma colon_append (hb : Blank b) (r : List Char) : colon (b ++ ':' :: r) = .ok r := by
  unfold colon
  rw [skipBlanks_append hb, skipBlanks_cons (by decide)]
  rfl

lemma exists_of_skipScalar (h : skipScalar c s = .ok r) :
    ∃ t, Form .value t ∧ c :: s = t ++ r := by
  unfold skipScalar at h
  split_ifs at h with hquote hnull htrue hfalse hminus hdigit
  · obtain ⟨raw, hraw, rfl⟩ := skipText_eq_ok_iff.mp h
    exact ⟨_, .text hraw, by simp [hquote]⟩
  · obtain rfl := literal_eq_ok_iff.mp h
    exact ⟨_, .named (.inl rfl), by simp [hnull]⟩
  · obtain rfl := literal_eq_ok_iff.mp h
    exact ⟨_, .named (.inr (.inl rfl)), by simp [htrue]⟩
  · obtain rfl := literal_eq_ok_iff.mp h
    exact ⟨_, .named (.inr (.inr rfl)), by simp [hfalse]⟩
  · obtain ⟨t, ht, rfl⟩ := exists_of_skipNumber h
    exact ⟨_, .negative ht, by simp [hminus]⟩
  · obtain ⟨t, ht, hs⟩ := exists_of_skipNumber h
    exact ⟨t, .number ht, hs⟩

/-- What a reader takes is of a form, but for blanks in front. -/
def Taken (p : Part) (f : List Char → Except Fault (List Char)) : Prop :=
  ∀ s r, f s = .ok r → ∃ b t, Blank b ∧ Form p t ∧ s = b ++ (t ++ r)

lemma taken_skipValue (hitems : Taken .items (skipItems fuel))
    (hmembers : Taken .members (skipMembers fuel)) : Taken .value (skipValue (fuel + 1)) := by
  intro s r h
  rw [skipValue] at h
  split at h
  · cases h
  rename_i c u hu
  obtain ⟨b, hb, -, rfl⟩ := exists_of_skipBlanks hu
  split_ifs at h with hlist hobject
  · split at h
    · cases h
    rename_i d v hv
    obtain ⟨b', hb', -, rfl⟩ := exists_of_skipBlanks hv
    split_ifs at h with hend
    · obtain rfl := Except.ok.inj h
      exact ⟨b, _, hb, .emptyList hb', by simp [hlist, hend]⟩
    · obtain ⟨b'', t, hb'', ht, hrest⟩ := hitems _ r h
      exact ⟨b, _, hb, .list (hb'.append hb'') ht, by simp [hlist, hrest]⟩
  · split at h
    · cases h
    rename_i d v hv
    obtain ⟨b', hb', -, rfl⟩ := exists_of_skipBlanks hv
    split_ifs at h with hend
    · obtain rfl := Except.ok.inj h
      exact ⟨b, _, hb, .emptyObject hb', by simp [hobject, hend]⟩
    · obtain ⟨b'', t, hb'', ht, hrest⟩ := hmembers _ r h
      exact ⟨b, _, hb, .object (hb'.append hb'') ht, by simp [hobject, hrest]⟩
  · obtain ⟨t, ht, hrest⟩ := exists_of_skipScalar h
    exact ⟨b, t, hb, ht, by rw [hrest]⟩

lemma taken_skipItems (hvalue : Taken .value (skipValue fuel))
    (hitems : Taken .items (skipItems fuel)) : Taken .items (skipItems (fuel + 1)) := by
  intro s r h
  rw [skipItems] at h
  split at h
  · cases h
  rename_i u hu
  obtain ⟨b, v, hb, hv, rfl⟩ := hvalue s u hu
  split at h
  · cases h
  rename_i d w hw
  obtain ⟨b', hb', -, rfl⟩ := exists_of_skipBlanks hw
  split_ifs at h with hcomma hend
  · obtain ⟨b'', t, hb'', ht, rfl⟩ := hitems w r h
    exact ⟨b, _, hb, .item hv hb' hb'' ht, by simp [hcomma]⟩
  · obtain rfl := Except.ok.inj h
    exact ⟨b, _, hb, .lastItem hv hb', by simp [hend]⟩

lemma taken_skipMembers (hvalue : Taken .value (skipValue fuel))
    (hmembers : Taken .members (skipMembers fuel)) : Taken .members (skipMembers (fuel + 1)) := by
  intro s r h
  rw [skipMembers] at h
  split at h
  · cases h
  rename_i q u hq
  obtain ⟨b, hb, -, rfl⟩ := exists_of_skipBlanks hq
  split_ifs at h with hquote
  rw [not_not] at hquote
  split at h
  · cases h
  rename_i w hw
  obtain ⟨raw, hraw, rfl⟩ := skipText_eq_ok_iff.mp hw
  split at h
  · cases h
  rename_i x hx
  obtain ⟨b₁, hb₁, rfl⟩ := exists_of_colon hx
  split at h
  · cases h
  rename_i y hy
  obtain ⟨b₂, v, hb₂, hv, rfl⟩ := hvalue x y hy
  split at h
  · cases h
  rename_i d z hz
  obtain ⟨b₃, hb₃, -, rfl⟩ := exists_of_skipBlanks hz
  split_ifs at h with hcomma hend
  · obtain ⟨b₄, t, hb₄, ht, rfl⟩ := hmembers z r h
    exact ⟨b, _, hb, .member hraw hb₁ hb₂ hv hb₃ hb₄ ht, by simp [hquote, hcomma]⟩
  · obtain rfl := Except.ok.inj h
    exact ⟨b, _, hb, .lastMember hraw hb₁ hb₂ hv hb₃, by simp [hquote, hend]⟩

/-- By induction on the fuel, for values, items and members at once. -/
theorem taken_of_fuel (fuel : Nat) : Taken .value (skipValue fuel) ∧
    Taken .items (skipItems fuel) ∧ Taken .members (skipMembers fuel) := by
  induction fuel with
  | zero =>
    refine ⟨?_, ?_, ?_⟩ <;>
    · intro s r h
      cases h
  | succ fuel ih =>
    obtain ⟨hvalue, hitems, hmembers⟩ := ih
    exact ⟨taken_skipValue hitems hmembers, taken_skipItems hvalue hitems,
      taken_skipMembers hvalue hmembers⟩

def skipPart : Part → Nat → List Char → Except Fault (List Char)
  | .value => skipValue
  | .items => skipItems
  | .members => skipMembers

lemma skipScalar_digit (hc : c.isDigit = true) (s : List Char) :
    skipScalar c s = skipNumber (c :: s) := by
  have hne : c ≠ '"' ∧ c ≠ 'n' ∧ c ≠ 't' ∧ c ≠ 'f' ∧ c ≠ '-' :=
    ⟨ne_of_isDigit hc rfl, ne_of_isDigit hc rfl, ne_of_isDigit hc rfl, ne_of_isDigit hc rfl,
      ne_of_isDigit hc rfl⟩
  simp [skipScalar, hne, hc]

lemma skipValue_scalar (hb : Blank b) (hc : Opening c) (hlist : c ≠ '[') (hobject : c ≠ '{')
    (fuel : Nat) (s : List Char) : skipValue (fuel + 1) (b ++ c :: s) = skipScalar c s := by
  rw [skipValue, skipBlanks_append hb, skipBlanks_cons hc.solid]
  dsimp only
  rw [if_neg hlist, if_neg hobject]

lemma Form.items_exists_cons (h : Form .items t) : ∃ c u, Opening c ∧ t = c :: u := by
  cases h with
  | lastItem hv hb =>
    obtain ⟨c, u, hc, rfl⟩ := hv.exists_cons
    exact ⟨c, _, hc, rfl⟩
  | item hv hb hb' rest =>
    obtain ⟨c, u, hc, rfl⟩ := hv.exists_cons
    exact ⟨c, _, hc, rfl⟩

lemma Form.members_exists_cons (h : Form .members t) : ∃ u, t = '"' :: u := by
  cases h with
  | lastMember => exact ⟨_, rfl⟩
  | member => exact ⟨_, rfl⟩

lemma exists_fuel {n : Nat} (hfuel : n ≤ fuel) (hn : n ≠ 0) : ∃ k, fuel = k + 1 :=
  Nat.exists_eq_succ_of_ne_zero (by omega)

/-- Two units of fuel for each character are enough. -/
theorem skipPart_append (h : Form p t) (hfuel : 2 * t.length ≤ fuel) (hb : Blank b)
    (hr : p = .value → Ends r) : skipPart p fuel (b ++ (t ++ r)) = .ok r := by
  induction h generalizing fuel b r with
  | @text raw inner =>
    obtain ⟨fuel, rfl⟩ := exists_fuel hfuel (by simp)
    have hskip : skipText (raw ++ '"' :: r) = .ok r := skipText_eq_ok_iff.mpr ⟨raw, inner, rfl⟩
    simpa [skipPart, skipValue, hb, isBlank, skipScalar] using hskip
  | @named t inner =>
    have hlength : 2 * t.length ≠ 0 := by rcases inner with rfl | rfl | rfl <;> decide
    obtain ⟨fuel, rfl⟩ := exists_fuel hfuel hlength
    have hskip (cs : List Char) : literal cs (cs ++ r) = .ok r := literal_eq_ok_iff.mpr rfl
    rcases inner with rfl | rfl | rfl
    · simpa [skipPart, skipValue, hb, isBlank, skipScalar] using hskip ['u', 'l', 'l']
    · simpa [skipPart, skipValue, hb, isBlank, skipScalar] using hskip ['r', 'u', 'e']
    · simpa [skipPart, skipValue, hb, isBlank, skipScalar] using hskip ['a', 'l', 's', 'e']
  | number inner =>
    obtain ⟨c, u, hc, rfl⟩ := inner.exists_cons
    obtain ⟨fuel, rfl⟩ := exists_fuel hfuel (by simp)
    have hskip := skipNumber_append inner (hr rfl)
    have hlist : c ≠ '[' := ne_of_isDigit hc rfl
    have hobject : c ≠ '{' := ne_of_isDigit hc rfl
    rw [List.cons_append] at hskip ⊢
    rw [skipPart, skipValue_scalar hb (opening_of_isDigit hc) hlist hobject, skipScalar_digit hc,
      hskip]
  | @negative u inner =>
    obtain ⟨fuel, rfl⟩ := exists_fuel hfuel (by simp)
    have hskip := skipNumber_append inner (hr rfl)
    simpa [skipPart, skipValue, hb, isBlank, skipScalar] using hskip
  | @emptyList b' hb' =>
    obtain ⟨fuel, rfl⟩ := exists_fuel hfuel (by simp)
    simp [skipPart, skipValue, hb, hb', isBlank]
  | @list b' u hb' inner ih =>
    obtain ⟨fuel, rfl⟩ := exists_fuel hfuel (by simp)
    have hskip : skipItems fuel (u ++ r) = .ok r :=
      ih (by simp at hfuel; omega) blank_nil (fun hp => nomatch hp)
    obtain ⟨c, v, hc, rfl⟩ := inner.items_exists_cons
    have hhead : skipBlanks (c :: (v ++ r)) = c :: (v ++ r) := skipBlanks_cons hc.solid _
    rw [List.cons_append] at hskip
    simp [skipPart, skipValue, hb, hb', isBlank, hhead, hc.bracket, hskip]
  | @emptyObject b' hb' =>
    obtain ⟨fuel, rfl⟩ := exists_fuel hfuel (by simp)
    simp [skipPart, skipValue, hb, hb', isBlank]
  | @object b' u hb' inner ih =>
    obtain ⟨fuel, rfl⟩ := exists_fuel hfuel (by simp)
    have hskip : skipMembers fuel (u ++ r) = .ok r :=
      ih (by simp at hfuel; omega) blank_nil (fun hp => nomatch hp)
    obtain ⟨v, rfl⟩ := inner.members_exists_cons
    rw [List.cons_append] at hskip
    simpa [skipPart, skipValue, hb, hb', isBlank] using hskip
  | @lastItem v b' hv hb' ih =>
    obtain ⟨fuel, rfl⟩ := exists_fuel hfuel (by simp)
    have hvalue : skipValue fuel (b ++ (v ++ (b' ++ ']' :: r))) = .ok (b' ++ ']' :: r) :=
      ih (by simp at hfuel; omega) hb fun _ => .blank_append hb' (ends_cons (by simp) r)
    simp [skipPart, skipItems, hvalue, hb', isBlank]
  | @item v b' b'' u hv hb' hb'' rest ihv ih =>
    obtain ⟨fuel, rfl⟩ := exists_fuel hfuel (by simp)
    have hvalue : skipValue fuel (b ++ (v ++ (b' ++ ',' :: (b'' ++ (u ++ r))))) =
        .ok (b' ++ ',' :: (b'' ++ (u ++ r))) :=
      ihv (by simp at hfuel; omega) hb fun _ => .blank_append hb' (ends_cons (by simp) _)
    have hrest : skipItems fuel (b'' ++ (u ++ r)) = .ok r :=
      ih (by simp at hfuel; omega) hb'' (fun hp => nomatch hp)
    simp [skipPart, skipItems, hvalue, hb', isBlank, hrest]
  | @lastMember raw b₁ b₂ v b₃ key hb₁ hb₂ hv hb₃ ih =>
    obtain ⟨fuel, rfl⟩ := exists_fuel hfuel (by simp)
    have hkey : skipText (raw ++ '"' :: (b₁ ++ ':' :: (b₂ ++ (v ++ (b₃ ++ '}' :: r))))) =
        .ok (b₁ ++ ':' :: (b₂ ++ (v ++ (b₃ ++ '}' :: r)))) :=
      skipText_eq_ok_iff.mpr ⟨raw, key, rfl⟩
    have hvalue : skipValue fuel (b₂ ++ (v ++ (b₃ ++ '}' :: r))) = .ok (b₃ ++ '}' :: r) :=
      ih (by simp at hfuel; omega) hb₂ fun _ => .blank_append hb₃ (ends_cons (by simp) r)
    simp [skipPart, skipMembers, hb, isBlank, hkey, colon_append hb₁, hvalue, hb₃]
  | @member raw b₁ b₂ v b₃ b₄ u key hb₁ hb₂ hv hb₃ hb₄ rest ihv ih =>
    obtain ⟨fuel, rfl⟩ := exists_fuel hfuel (by simp)
    have hkey : skipText
        (raw ++ '"' :: (b₁ ++ ':' :: (b₂ ++ (v ++ (b₃ ++ ',' :: (b₄ ++ (u ++ r))))))) =
        .ok (b₁ ++ ':' :: (b₂ ++ (v ++ (b₃ ++ ',' :: (b₄ ++ (u ++ r)))))) :=
      skipText_eq_ok_iff.mpr ⟨raw, key, rfl⟩
    have hvalue : skipValue fuel (b₂ ++ (v ++ (b₃ ++ ',' :: (b₄ ++ (u ++ r))))) =
        .ok (b₃ ++ ',' :: (b₄ ++ (u ++ r))) :=
      ihv (by simp at hfuel; omega) hb₂ fun _ => .blank_append hb₃ (ends_cons (by simp) _)
    have hrest : skipMembers fuel (b₄ ++ (u ++ r)) = .ok r :=
      ih (by simp at hfuel; omega) hb₄ (fun hp => nomatch hp)
    simp [skipPart, skipMembers, hb, isBlank, hkey, colon_append hb₁, hvalue, hb₃, hrest]

/-- Line feeds are nowhere but in blanks, so a value stays one without them. -/
theorem Form.joinLines (h : Form p t) : Form p (Text.joinLines t) := by
  have hquote : '"' ≠ '\n' := by decide
  have hcolon : ':' ≠ '\n' := by decide
  have hcomma : ',' ≠ '\n' := by decide
  induction h with
  | @text raw inner =>
    have hfree : '\n' ∉ '"' :: (raw ++ ['"']) := by simp [inner.newline_notMem]
    rw [joinLines_eq_self hfree]
    exact .text inner
  | @named t inner =>
    have hfree : '\n' ∉ t := by rcases inner with rfl | rfl | rfl <;> decide
    rw [joinLines_eq_self hfree]
    exact .named inner
  | number inner =>
    rw [joinLines_eq_self inner.newline_notMem]
    exact .number inner
  | @negative t inner =>
    have hfree : '\n' ∉ '-' :: t := by simp [inner.newline_notMem]
    rw [joinLines_eq_self hfree]
    exact .negative inner
  | emptyList hb =>
    rw [joinLines_cons (by decide), Text.joinLines_append]
    exact .emptyList hb.joinLines
  | list hb inner ih =>
    rw [joinLines_cons (by decide), Text.joinLines_append]
    exact .list hb.joinLines ih
  | emptyObject hb =>
    rw [joinLines_cons (by decide), Text.joinLines_append]
    exact .emptyObject hb.joinLines
  | object hb inner ih =>
    rw [joinLines_cons (by decide), Text.joinLines_append]
    exact .object hb.joinLines ih
  | lastItem hv hb ih =>
    rw [Text.joinLines_append, Text.joinLines_append]
    exact .lastItem ih hb.joinLines
  | item hv hb hb' rest ihv ih =>
    simp only [Text.joinLines_append, joinLines_cons hcomma]
    exact .item ihv hb.joinLines hb'.joinLines ih
  | lastMember key hb₁ hb₂ hv hb₃ ih =>
    simp only [Text.joinLines_append, joinLines_cons hquote, joinLines_cons hcolon,
      joinLines_eq_self key.newline_notMem]
    exact .lastMember key hb₁.joinLines hb₂.joinLines ih hb₃.joinLines
  | member key hb₁ hb₂ hv hb₃ hb₄ rest ihv ih =>
    simp only [Text.joinLines_append, joinLines_cons hquote, joinLines_cons hcolon,
      joinLines_cons hcomma, joinLines_eq_self key.newline_notMem]
    exact .member key hb₁.joinLines hb₂.joinLines ihv hb₃.joinLines hb₄.joinLines ih

/-- Passing over takes a value, and every value can be passed over. -/
theorem exists_of_skip (h : skip s = .ok r) : ∃ b t, Blank b ∧ Form .value t ∧ s = b ++ (t ++ r) :=
  (taken_of_fuel _).1 s r h

theorem skip_append (h : Form .value t) (hb : Blank b) (hr : Ends r) :
    skip (b ++ (t ++ r)) = .ok r :=
  skipPart_append (p := .value) h (by simp; omega) hb fun _ => hr

end PaymentDrill.Json
