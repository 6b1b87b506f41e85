import Mathlib.Data.Nat.Notation
import Mathlib.Tactic.Common

/-!
# Latest values

Some of the places `0, 1, 2, …` have a value.  **`IsLatest has n`** relates to the value at the latest
of the first `n` places that has one.  What a state remembers of its past is mostly of this form, and
`IsLatest.succ` is then the step of the induction over the past.
-/

namespace DrillCycles

variable {α : Type} {has has' : ℕ → α → Prop} {n : ℕ}

/-- The value at the latest of the first `n` places with a value; none when no place has one. -/
def IsLatest (has : ℕ → α → Prop) (n : ℕ) : Option α → Prop
  | some a => ∃ j < n, has j a ∧ ∀ k, j < k → k < n → ∀ b, ¬ has k b
  | none => ∀ k < n, ∀ b, ¬ has k b

lemma isLatest_zero (has : ℕ → α → Prop) : IsLatest has 0 none := by
  intro k hk
  omega

/-- One place more: its value, if it has one, and the older value otherwise. -/
lemma IsLatest.succ {old : Option α} (h : IsLatest has n old) (new : Option α)
    (hnew : ∀ a, has n a ↔ new = some a) : IsLatest has (n + 1) (new <|> old) := by
  cases new with
  | some a => exact ⟨n, Nat.lt_succ_self n, (hnew a).mpr rfl, fun k _ _ => by omega⟩
  | none =>
      have hnone : ∀ a, ¬ has n a := fun a ha => by simpa using (hnew a).mp ha
      cases old with
      | some a =>
          obtain ⟨j, hj, ha, hlater⟩ := h
          refine ⟨j, by omega, ha, fun k hjk hkn => ?_⟩
          rcases Nat.lt_succ_iff_lt_or_eq.mp hkn with hlt | rfl
          · exact hlater k hjk hlt
          · exact hnone
      | none =>
          intro k hkn
          rcases Nat.lt_succ_iff_lt_or_eq.mp hkn with hlt | rfl
          · exact h k hlt
          · exact hnone

lemma IsLatest.congr {v : Option α} (h : IsLatest has n v)
    (hiff : ∀ k < n, ∀ a, has' k a ↔ has k a) : IsLatest has' n v := by
  cases v with
  | some a =>
      obtain ⟨j, hj, ha, hlater⟩ := h
      refine ⟨j, hj, (hiff j hj a).mpr ha, fun k hjk hkn b hb => ?_⟩
      exact hlater k hjk hkn b ((hiff k hkn b).mp hb)
  | none => exact fun k hkn b hb => h k hkn b ((hiff k hkn b).mp hb)

/-- Where every place has one value at most, so has their latest. -/
lemma IsLatest.unique {v w : Option α} (hone : ∀ k a b, has k a → has k b → a = b)
    (hv : IsLatest has n v) (hw : IsLatest has n w) : v = w := by
  cases v with
  | none =>
      cases w with
      | none => rfl
      | some b =>
          obtain ⟨j, hj, hb, -⟩ := hw
          exact absurd hb (hv j hj b)
  | some a =>
      obtain ⟨i, hi, ha, hlaterA⟩ := hv
      cases w with
      | none => exact absurd ha (hw i hi a)
      | some b =>
          obtain ⟨j, hj, hb, hlaterB⟩ := hw
          rcases Nat.lt_trichotomy i j with hij | rfl | hji
          · exact absurd hb (hlaterA j hij hj b)
          · rw [hone i a b ha hb]
          · exact absurd ha (hlaterB i hji hi a)

end DrillCycles
