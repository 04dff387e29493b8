import Mathlib.Data.List.TakeWhile
import Mathlib.Logic.Basic
import Mathlib.Tactic.Lemma
import Mathlib.Tactic.SplitIfs
import PaymentDrill.Json.Record

/-!
# Tokens

What the readers of blanks, literals and strings accept, said without a reader: blanks
are blanks, a literal is itself, and a string is a sequence of plain characters and
escapes. A string that is passed over need not make sense. No token but a blank has a
line feed in it.
-/
namespace PaymentDrill.Json

variable {b r s : List Char} {c : Char}

lemma joinLines_eq_self (h : '\n' ∉ s) : Text.joinLines s = s := by
  refine List.filter_eq_self.mpr fun c hc => ?_
  simpa using ne_of_mem_of_not_mem hc h

@[simp] lemma joinLines_cons (hc : c ≠ '\n') (s : List Char) :
    Text.joinLines (c :: s) = c :: Text.joinLines s := by
  simp [Text.joinLines, hc]

/-- Nothing but blanks. -/
def Blank (b : List Char) : Prop := ∀ c ∈ b, isBlank c = true

@[simp] lemma blank_nil : Blank [] := by simp [Blank]

lemma Blank.joinLines (h : Blank b) : Blank (Text.joinLines b) :=
  fun c hc => h c (List.mem_filter.mp hc).1

@[simp] lemma skipBlanks_append (h : Blank b) (s : List Char) :
    skipBlanks (b ++ s) = skipBlanks s := by
  unfold skipBlanks
  rw [List.dropWhile_append_of_pos h]

@[simp] lemma skipBlanks_cons (h : isBlank c = false) (s : List Char) :
    skipBlanks (c :: s) = c :: s := by
  simp [skipBlanks, h]

lemma skipBlanks_eq_nil_iff : skipBlanks s = [] ↔ Blank s := by
  simp [skipBlanks, Blank, List.dropWhile_eq_nil_iff]

/-- What stands in front of the first character that counts. -/
lemma exists_of_skipBlanks (h : skipBlanks s = c :: r) :
    ∃ b, Blank b ∧ isBlank c = false ∧ s = b ++ c :: r := by
  have hhead := List.head?_dropWhile_not isBlank s
  have hsplit : s.takeWhile isBlank ++ skipBlanks s = s := List.takeWhile_append_dropWhile
  unfold skipBlanks at h hsplit
  rw [h] at hhead hsplit
  refine ⟨s.takeWhile isBlank, fun c hc => List.mem_takeWhile_imp hc, by simpa using hhead, ?_⟩
  exact hsplit.symm

lemma literal_eq_ok_iff {cs : List Char} : literal cs s = .ok r ↔ s = cs ++ r := by
  induction cs generalizing s with
  | nil => simp [literal]
  | cons c cs ih =>
    cases s with
    | nil => simp [literal]
    | cons d s =>
      rw [literal]
      split_ifs with hd
      · simp [ih, hd]
      · simp [hd]

lemma codeUnit_eq_ok_iff {n : Nat} : codeUnit s = .ok (n, r) ↔
    ∃ a b c d, hexFour? a b c d = some n ∧ s = a :: b :: c :: d :: r := by
  unfold codeUnit
  constructor
  · intro h
    split at h
    · split at h
      · rename_i hn
        obtain ⟨rfl, rfl⟩ := Prod.mk.inj (Except.ok.inj h)
        exact ⟨_, _, _, _, hn, rfl⟩
      · cases h
    · cases h
  · rintro ⟨a, b, c, d, hn, rfl⟩
    simp only [hn]

/-- The text of an escape behind its backslash. -/
inductive Escape : List Char → Char → Prop
  | short {c d : Char} (h : shortEscape? c = some d) : Escape [c] d
  | unit {a b c d : Char} {n : Nat} (h : hexFour? a b c d = some n) (whole : isTrailing n = false)
      (whole' : isLeading n = false) : Escape ['u', a, b, c, d] (Char.ofNat n)
  | pair {a b c d a' b' c' d' : Char} {high low : Nat} (h : hexFour? a b c d = some high)
      (leading : isLeading high = true) (h' : hexFour? a' b' c' d' = some low)
      (trailing : isTrailing low = true) :
      Escape ['u', a, b, c, d, '\\', 'u', a', b', c', d'] (ofPair high low)

lemma trailingUnit_eq_ok_iff {high : Nat} : trailingUnit high s = .ok (c, r) ↔
    ∃ a b d e low, hexFour? a b d e = some low ∧ isTrailing low = true ∧ c = ofPair high low ∧
      s = '\\' :: 'u' :: a :: b :: d :: e :: r := by
  constructor
  · intro h
    unfold trailingUnit at h
    split at h
    · cases h
    · rename_i x t
      split_ifs at h with hx
      split at h
      · cases h
      · rename_i y t
        split_ifs at h with hy
        split at h
        · cases h
        · rename_i low t ht
          obtain ⟨a, b, d, e, hn, rfl⟩ := codeUnit_eq_ok_iff.mp ht
          split_ifs at h with hlow
          simp only [Except.ok.injEq, Prod.mk.injEq] at h
          obtain ⟨rfl, rfl⟩ := h
          obtain rfl := not_not.mp hx
          obtain rfl := not_not.mp hy
          exact ⟨a, b, d, e, low, hn, hlow, rfl, rfl⟩
  · rintro ⟨a, b, d, e, low, hn, hlow, hc, hs⟩
    have hunit : codeUnit (a :: b :: d :: e :: r) = .ok (low, r) :=
      codeUnit_eq_ok_iff.mpr ⟨a, b, d, e, hn, rfl⟩
    simp [trailingUnit, hunit, hlow, hc, hs]

lemma isTrailing_of_isLeading {n : Nat} (h : isLeading n = true) : isTrailing n = false := by
  simp only [isLeading, isTrailing, Bool.and_eq_true, decide_eq_true_eq, Bool.and_eq_false_imp,
    decide_eq_false_iff_not] at h ⊢
  omega

lemma unicodeEscape_eq_ok_iff :
    unicodeEscape s = .ok (c, r) ↔ ∃ e, Escape ('u' :: e) c ∧ s = e ++ r := by
  constructor
  · intro h
    unfold unicodeEscape at h
    split at h
    · cases h
    · rename_i n t ht
      obtain ⟨a, b, d, e, hn, rfl⟩ := codeUnit_eq_ok_iff.mp ht
      split_ifs at h with htrailing hleading
      · obtain ⟨a', b', d', e', low, hlow, ht', hc, hs⟩ := trailingUnit_eq_ok_iff.mp h
        rw [hc, hs]
        exact ⟨_, .pair hn hleading hlow ht', rfl⟩
      · simp only [Except.ok.injEq, Prod.mk.injEq] at h
        obtain ⟨rfl, rfl⟩ := h
        exact ⟨_, .unit hn (eq_false_of_ne_true htrailing) (eq_false_of_ne_true hleading), rfl⟩
  · rintro ⟨e, he, rfl⟩
    cases he with
    | short h => cases h
    | @unit a b c d n h whole whole' =>
      have hunit : codeUnit (a :: b :: c :: d :: r) = .ok (n, r) :=
        codeUnit_eq_ok_iff.mpr ⟨a, b, c, d, h, rfl⟩
      simp [unicodeEscape, hunit, whole, whole']
    | @pair a b c d a' b' c' d' high low h leading h' trailing =>
      have hhigh : codeUnit (a :: b :: c :: d :: '\\' :: 'u' :: a' :: b' :: c' :: d' :: r) =
          .ok (high, '\\' :: 'u' :: a' :: b' :: c' :: d' :: r) :=
        codeUnit_eq_ok_iff.mpr ⟨a, b, c, d, h, rfl⟩
      have hlow : trailingUnit high ('\\' :: 'u' :: a' :: b' :: c' :: d' :: r) =
          .ok (ofPair high low, r) :=
        trailingUnit_eq_ok_iff.mpr ⟨a', b', c', d', low, h', trailing, rfl, rfl⟩
      simp [unicodeEscape, hhigh, isTrailing_of_isLeading leading, leading, hlow]

lemma escape_eq_ok_iff : escape s = .ok (c, r) ↔ ∃ e, Escape e c ∧ s = e ++ r := by
  constructor
  · intro h
    unfold escape at h
    split at h
    · cases h
    · split_ifs at h with hu
      · obtain ⟨e, he, rfl⟩ := unicodeEscape_eq_ok_iff.mp h
        exact ⟨_, he, by rw [hu]; rfl⟩
      · split at h
        · rename_i d hd
          obtain ⟨rfl, rfl⟩ := Prod.mk.inj (Except.ok.inj h)
          exact ⟨_, .short hd, rfl⟩
        · cases h
  · rintro ⟨e, he, rfl⟩
    cases he with
    | @short c _ h =>
      have hu : c ≠ 'u' := by
        rintro rfl
        cases h
      simp [escape, hu, h]
    | unit h whole whole' =>
      exact unicodeEscape_eq_ok_iff.mpr ⟨_, .unit h whole whole', rfl⟩
    | pair h leading h' trailing =>
      exact unicodeEscape_eq_ok_iff.mpr ⟨_, .pair h leading h' trailing, rfl⟩

/-- The text between the quotes of a string, and the characters that it stands for. -/
inductive Spells : List Char → List Char → Prop
  | nil : Spells [] []
  | plain {c : Char} {raw cs : List Char} (unquoted : c ≠ '"') (unescaped : c ≠ '\\')
      (visible : isControl c = false) (rest : Spells raw cs) : Spells (c :: raw) (c :: cs)
  | escaped {e : List Char} {c : Char} {raw cs : List Char} (escape : Escape e c)
      (rest : Spells raw cs) : Spells ('\\' :: (e ++ raw)) (c :: cs)

lemma readText_plain {cs : List Char} (unquoted : c ≠ '"') (unescaped : c ≠ '\\')
    (visible : isControl c = false) (h : readText s = .ok (cs, r)) :
    readText (c :: s) = .ok (c :: cs, r) := by
  rw [readText]
  · simp [visible, h]
  · exact unquoted
  · exact unescaped

lemma readText_escaped {cs t : List Char} (he : escape s = .ok (c, t))
    (h : readText t = .ok (cs, r)) : readText ('\\' :: s) = .ok (c :: cs, r) := by
  rw [readText]
  split
  · rename_i f hf
    cases he.symm.trans hf
  · rename_i d u hd
    obtain ⟨rfl, rfl⟩ := Prod.mk.inj (Except.ok.inj (he.symm.trans hd))
    simp [h]

theorem readText_eq_ok_iff {cs : List Char} :
    readText s = .ok (cs, r) ↔ ∃ raw, Spells raw cs ∧ s = raw ++ '"' :: r := by
  constructor
  · intro h
    fun_induction readText s generalizing cs with
    | case2 t =>
      obtain ⟨rfl, rfl⟩ := Prod.mk.inj (Except.ok.inj h)
      exact ⟨[], .nil, rfl⟩
    | case5 t d t' ht hlt ds rest hds ih =>
      obtain ⟨rfl, rfl⟩ := Prod.mk.inj (Except.ok.inj h)
      obtain ⟨e, he, rfl⟩ := escape_eq_ok_iff.mp ht
      obtain ⟨raw, hraw, rfl⟩ := ih hds
      exact ⟨_, .escaped he hraw, by simp⟩
    | case8 d t hq hb hvisible ds rest hds ih =>
      obtain ⟨rfl, rfl⟩ := Prod.mk.inj (Except.ok.inj h)
      obtain ⟨raw, hraw, rfl⟩ := ih hds
      exact ⟨_, .plain hq hb (eq_false_of_ne_true hvisible) hraw, rfl⟩
    | _ => cases h
  · rintro ⟨raw, hraw, rfl⟩
    induction hraw with
    | nil => rw [List.nil_append, readText]
    | plain unquoted unescaped visible rest ih => exact readText_plain unquoted unescaped visible ih
    | @escaped e d raw ds he rest ih =>
      rw [List.cons_append, List.append_assoc]
      exact readText_escaped (escape_eq_ok_iff.mpr ⟨e, he, rfl⟩) ih

/-- The form of an escape behind its backslash, whether it makes sense or not. -/
inductive EscapeForm : List Char → Prop
  | short {c : Char} (h : (shortEscape? c).isSome = true) : EscapeForm [c]
  | unit {a b c d : Char} {n : Nat} (h : hexFour? a b c d = some n) : EscapeForm ['u', a, b, c, d]

lemma skipEscape_eq_ok_iff : skipEscape s = .ok r ↔ ∃ e, EscapeForm e ∧ s = e ++ r := by
  constructor
  · intro h
    unfold skipEscape at h
    split at h
    · cases h
    · split_ifs at h with hu hshort
      · split at h
        · cases h
        · rename_i n t ht
          obtain rfl := Except.ok.inj h
          obtain ⟨a, b, d, e, hn, rfl⟩ := codeUnit_eq_ok_iff.mp ht
          exact ⟨_, .unit hn, by rw [hu]; rfl⟩
      · obtain rfl := Except.ok.inj h
        exact ⟨_, .short hshort, rfl⟩
  · rintro ⟨e, he, rfl⟩
    cases he with
    | @short c h =>
      have hu : c ≠ 'u' := by
        rintro rfl
        cases h
      simp [skipEscape, hu, h]
    | @unit a b c d n h =>
      have hunit : codeUnit (a :: b :: c :: d :: r) = .ok (n, r) :=
        codeUnit_eq_ok_iff.mpr ⟨a, b, c, d, h, rfl⟩
      simp [skipEscape, hunit]

/-- The text between the quotes of a string that is passed over. -/
inductive Passable : List Char → Prop
  | nil : Passable []
  | plain {c : Char} {raw : List Char} (unquoted : c ≠ '"') (unescaped : c ≠ '\\')
      (visible : isControl c = false) (rest : Passable raw) : Passable (c :: raw)
  | escaped {e raw : List Char} (escape : EscapeForm e) (rest : Passable raw) :
      Passable ('\\' :: (e ++ raw))

lemma skipText_plain (unquoted : c ≠ '"') (unescaped : c ≠ '\\') (visible : isControl c = false)
    (s : List Char) : skipText (c :: s) = skipText s := by
  rw [skipText]
  · simp [visible]
  · exact unquoted
  · exact unescaped

lemma skipText_escaped {t : List Char} (he : skipEscape s = .ok t) :
    skipText ('\\' :: s) = skipText t := by
  rw [skipText]
  split
  · rename_i f hf
    cases he.symm.trans hf
  · rename_i u hu
    obtain rfl := Except.ok.inj (he.symm.trans hu)
    rfl

theorem skipText_eq_ok_iff : skipText s = .ok r ↔ ∃ raw, Passable raw ∧ s = raw ++ '"' :: r := by
  constructor
  · intro h
    fun_induction skipText s with
    | case2 t =>
      obtain rfl := Except.ok.inj h
      exact ⟨[], .nil, rfl⟩
    | case4 t t' ht hlt ih =>
      obtain ⟨e, he, rfl⟩ := skipEscape_eq_ok_iff.mp ht
      obtain ⟨raw, hraw, rfl⟩ := ih h
      exact ⟨_, .escaped he hraw, by simp⟩
    | case6 d t hq hb hvisible ih =>
      obtain ⟨raw, hraw, rfl⟩ := ih h
      exact ⟨_, .plain hq hb (eq_false_of_ne_true hvisible) hraw, rfl⟩
    | _ => cases h
  · rintro ⟨raw, hraw, rfl⟩
    induction hraw with
    | nil => rw [List.nil_append, skipText]
    | plain unquoted unescaped visible rest ih =>
      rw [List.cons_append, skipText_plain unquoted unescaped visible, ih]
    | @escaped e raw he rest ih =>
      rw [List.cons_append, List.append_assoc,
        skipText_escaped (skipEscape_eq_ok_iff.mpr ⟨e, he, rfl⟩), ih]

/-- A string that makes sense can be passed over. -/
lemma Spells.passable {raw cs : List Char} (h : Spells raw cs) : Passable raw := by
  induction h with
  | nil => exact .nil
  | plain unquoted unescaped visible rest ih => exact .plain unquoted unescaped visible ih
  | escaped he rest ih =>
    cases he with
    | short h => exact .escaped (.short (by rw [h]; rfl)) ih
    | unit h => exact .escaped (.unit h) ih
    | pair h leading h' trailing =>
      have htail := Passable.escaped (.unit h') ih
      have hwhole := Passable.escaped (.unit h) htail
      simpa using hwhole

lemma newline_notMem_of_hexFour? {a b c d : Char} {n : Nat} (h : hexFour? a b c d = some n) :
    '\n' ∉ [a, b, c, d] := by
  have hnone : hexValue? '\n' = none := by decide
  intro hmem
  simp only [hexFour?, Option.bind_eq_bind, Option.bind_eq_some_iff] at h
  obtain ⟨x, ha, y, hb, z, hc, w, hd, -⟩ := h
  simp only [List.mem_cons, List.not_mem_nil, or_false] at hmem
  rcases hmem with rfl | rfl | rfl | rfl <;> simp_all

/-- A string has no line feed in it but as an escape. -/
lemma Passable.newline_notMem {raw : List Char} (h : Passable raw) : '\n' ∉ raw := by
  induction h with
  | nil => simp
  | @plain c raw unquoted unescaped visible rest ih =>
    have hc : '\n' ≠ c := by
      rintro rfl
      cases visible
    simp [hc, ih]
  | @escaped e raw he rest ih =>
    have hform : '\n' ∉ e := by
      cases he with
      | @short c h =>
        have hc : '\n' ≠ c := by
          rintro rfl
          cases h
        simpa using hc
      | @unit a b c d n h =>
        have hhex := newline_notMem_of_hexFour? h
        simpa using hhex
    simp [hform, ih]

end PaymentDrill.Json
