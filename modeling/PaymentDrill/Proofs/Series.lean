import Mathlib.Tactic.Lemma
import Mathlib.Tactic.SplitIfs
import PaymentDrill.Payment

/-!
# Series of payments

The payments that a stream yields one after the other, for a list of addresses and a
ceiling alone. No wallet occurs here: a drill takes its payments from the front of
such a series, however the wallet answers. The index of a payment is a mere label,
so a shorter series is always the beginning of a longer one. All that a choice does to
a stream is to take words from it.
-/
namespace PaymentDrill

/-- Words taken one after the other, and the stream that they leave behind. -/
inductive Keystream.Yields : Keystream → List UInt64 → Keystream → Prop
  | nil (s : Keystream) : Yields s [] s
  | cons {s t : Keystream} {ws : List UInt64} (rest : Yields s.next.2 ws t) :
      Yields s (s.next.1 :: ws) t

lemma Keystream.Yields.append {s t u : Keystream} {ws vs : List UInt64} (h : Yields s ws t)
    (h' : Yields t vs u) : Yields s (ws ++ vs) u := by
  induction h with
  | nil s => exact h'
  | cons rest ih => exact .cons (ih h')

namespace Payment

/-- A number of payments chosen in a row, and the stream behind them. -/
def series (addresses : List String) (ceiling : Binary64) :
    Nat → Nat → Keystream → Except Stuck (List Payment × Keystream)
  | 0, _, s => .ok ([], s)
  | n + 1, index, s =>
    match choose addresses ceiling index s with
    | .error e => .error e
    | .ok (p, s) =>
      match series addresses ceiling n (index + 1) s with
      | .error e => .error e
      | .ok (ps, s) => .ok (p :: ps, s)

variable {addresses : List String} {ceiling : Binary64}

/-- What is drawn for an index is what is drawn for any other; only the label changes. -/
theorem choose_relabel (addresses : List String) (ceiling : Binary64) (i j : Nat) (s : Keystream) :
    choose addresses ceiling i s =
      (choose addresses ceiling j s).map fun r => ({ r.1 with index := i }, r.2) := by
  unfold choose
  cases drawAddress addresses s with
  | error e => rfl
  | ok r =>
    obtain ⟨address, s⟩ := r
    dsimp only
    cases drawShare ceiling s <;> rfl

lemma mem_of_drawAddress {s t : Keystream} {address : String}
    (h : drawAddress addresses s = .ok (address, t)) : address ∈ addresses := by
  unfold drawAddress at h
  split at h
  · obtain ⟨rfl, -⟩ := Prod.mk.inj (Except.ok.inj h)
    exact List.get_mem ..
  · cases h

/-- Payments go to the addresses of the list. -/
lemma mem_of_choose {i : Nat} {s s' : Keystream} {p : Payment}
    (h : choose addresses ceiling i s = .ok (p, s')) : p.address ∈ addresses := by
  unfold choose at h
  split at h
  · cases h
  rename_i ha
  split at h
  · cases h
  obtain ⟨rfl, -⟩ := Prod.mk.inj (Except.ok.inj h)
  exact mem_of_drawAddress ha

lemma index_of_choose {i : Nat} {s s' : Keystream} {p : Payment}
    (h : choose addresses ceiling i s = .ok (p, s')) : p.index = i := by
  have hi := choose_relabel addresses ceiling i i s
  rw [h] at hi
  exact congrArg Payment.index (Prod.mk.inj (Except.ok.inj hi)).1

lemma series_succ_eq_ok_iff {n i : Nat} {s s' : Keystream} {ps : List Payment} :
    series addresses ceiling (n + 1) i s = .ok (ps, s') ↔
      ∃ p t qs, choose addresses ceiling i s = .ok (p, t) ∧
        series addresses ceiling n (i + 1) t = .ok (qs, s') ∧ ps = p :: qs := by
  rw [series]
  constructor
  · intro h
    split at h
    · cases h
    · rename_i p t hp
      split at h
      · cases h
      · rename_i qs t' hqs
        obtain ⟨rfl, rfl⟩ := Prod.mk.inj (Except.ok.inj h)
        exact ⟨p, t, qs, hp, hqs, rfl⟩
  · rintro ⟨p, t, qs, hp, hqs, rfl⟩
    rw [hp]
    dsimp only
    rw [hqs]

/-- The payment of a series that a number of others come before. -/
def IsNext (addresses : List String) (ceiling : Binary64) (index : Nat) (s : Keystream) (n : Nat)
    (p : Payment) : Prop :=
  ∃ ps t, series addresses ceiling (n + 1) index s = .ok (ps ++ [p], t)

lemma isNext_zero {i : Nat} {s t : Keystream} {p : Payment}
    (h : choose addresses ceiling i s = .ok (p, t)) : IsNext addresses ceiling i s 0 p :=
  ⟨[], t, series_succ_eq_ok_iff.mpr ⟨p, t, [], h, rfl, rfl⟩⟩

lemma IsNext.succ {i n : Nat} {s t : Keystream} {p q : Payment}
    (hn : IsNext addresses ceiling (i + 1) t n q)
    (h : choose addresses ceiling i s = .ok (p, t)) : IsNext addresses ceiling i s (n + 1) q := by
  obtain ⟨ps, t', hps⟩ := hn
  exact ⟨p :: ps, t', series_succ_eq_ok_iff.mpr ⟨p, t, ps ++ [q], h, hps, rfl⟩⟩

/-- Of two series from the same place in the stream, the shorter one begins the longer one. -/
theorem series_prefix_of_le {m n i : Nat} {s s₁ s₂ : Keystream} {ps qs : List Payment} (hmn : m ≤ n)
    (hm : series addresses ceiling m i s = .ok (ps, s₁))
    (hn : series addresses ceiling n i s = .ok (qs, s₂)) : ps <+: qs := by
  induction m generalizing n i s ps qs with
  | zero =>
    obtain ⟨rfl, -⟩ := Prod.mk.inj (Except.ok.inj hm)
    exact List.nil_prefix
  | succ m ih =>
    obtain ⟨n, rfl⟩ : ∃ k, n = k + 1 := ⟨n - 1, by omega⟩
    obtain ⟨p, t, ps', hp, hps, rfl⟩ := series_succ_eq_ok_iff.mp hm
    obtain ⟨q, t', qs', hq, hqs, rfl⟩ := series_succ_eq_ok_iff.mp hn
    rw [hp] at hq
    obtain ⟨rfl, rfl⟩ := Prod.mk.inj (Except.ok.inj hq)
    exact (List.prefix_cons_inj p).mpr (ih (by omega) hps hqs)

/-- A draw takes words up to the first acceptable one. -/
lemma words_of_draw {α : Type} {accept : UInt64 → Option α} {tries : Nat} {s t : Keystream} {a : α}
    (h : draw accept tries s = some (a, t)) :
    ∃ ws w, s.Yields (ws ++ [w]) t ∧ accept w = some a ∧ ∀ v ∈ ws, accept v = none := by
  induction tries generalizing s with
  | zero => cases h
  | succ tries ih =>
    rw [draw] at h
    split at h
    · rename_i b hb
      obtain ⟨rfl, rfl⟩ := Prod.mk.inj (Option.some.inj h)
      exact ⟨[], _, .cons (.nil _), hb, by simp⟩
    · rename_i hnone
      obtain ⟨ws, w, hws, hw, hall⟩ := ih h
      exact ⟨_ :: ws, w, .cons hws, hw, by simpa [hnone] using hall⟩

lemma yields_of_drawAddress {s t : Keystream} {address : String}
    (h : drawAddress addresses s = .ok (address, t)) : ∃ ws, s.Yields ws t := by
  unfold drawAddress at h
  split at h
  · rename_i hd
    obtain ⟨-, rfl⟩ := Prod.mk.inj (Except.ok.inj h)
    obtain ⟨ws, w, hws, -⟩ := words_of_draw hd
    exact ⟨ws ++ [w], hws⟩
  · cases h

lemma yields_of_drawShare {s t : Keystream} {share : Binary64}
    (h : drawShare ceiling s = .ok (share, t)) : ∃ ws, s.Yields ws t := by
  unfold drawShare at h
  split_ifs at h
  · split at h
    · rename_i hd
      cases Except.ok.inj h
      obtain ⟨ws, w, hws, -⟩ := words_of_draw hd
      exact ⟨ws ++ [w], hws⟩
    · cases h
  · obtain ⟨-, rfl⟩ := Prod.mk.inj (Except.ok.inj h)
    exact ⟨[], .nil s⟩

/-- A choice takes words for its address, then words for its amount. -/
lemma yields_of_choose {i : Nat} {s t : Keystream} {p : Payment}
    (h : choose addresses ceiling i s = .ok (p, t)) : ∃ ws, s.Yields ws t := by
  unfold choose at h
  split at h
  · cases h
  rename_i ha
  split at h
  · cases h
  rename_i hr
  obtain ⟨-, rfl⟩ := Prod.mk.inj (Except.ok.inj h)
  obtain ⟨ws, hws⟩ := yields_of_drawAddress ha
  obtain ⟨vs, hvs⟩ := yields_of_drawShare hr
  exact ⟨ws ++ vs, hws.append hvs⟩

end Payment

end PaymentDrill
