import Hayai.Machine.Run
import Mathlib.Order.WellFounded
import Mathlib.Order.RelClasses

/-! # Endless executions

What a party gets done along an execution that does not end, when it is not passed over
for ever while it could move.
-/

universe u v

namespace Machine

variable {σ : Type u} {ι : Type v}

/-- A run that never ends: the inputs it takes and the states in between. -/
structure Execution (M : Machine σ ι) where
  state : ℕ → σ
  input : ℕ → ι
  step : ∀ n, M.step (state n) (input n) = some (state (n + 1))

namespace Execution

variable {M : Machine σ ι}

/-- Whoever takes the inputs `own` is not passed over for ever while it could move. -/
def Fair (e : M.Execution) (own : ι → Prop) : Prop :=
  ∀ n, ∃ m, n ≤ m ∧ (own (e.input m) ∨ ∀ i, own i → M.step (e.state m) i = none)

theorem always_of_keeps {e : M.Execution} {I : σ → Prop}
    (keep : ∀ n, I (e.state n) → I (e.state (n + 1))) (start : I (e.state 0)) (n : ℕ) :
    I (e.state n) := by
  induction n with
  | zero => exact start
  | succ n ih => exact keep n ih

variable {α : Type*} {e : M.Execution} {own : ι → Prop} {I : σ → Prop} {rank : σ → α}

/-- A party that can always move comes to move, the others leaving its rank alone. -/
theorem exists_own_step (able : ∀ s, I s → ∃ i t, own i ∧ M.step s i = some t)
    (others : ∀ n, I (e.state n) → ¬own (e.input n) →
      I (e.state (n + 1)) ∧ rank (e.state (n + 1)) = rank (e.state n)) {n k : ℕ}
    (hn : I (e.state n))
    (hk : own (e.input (n + k)) ∨ ∀ i, own i → M.step (e.state (n + k)) i = none) :
    ∃ m, n ≤ m ∧ I (e.state m) ∧ own (e.input m) ∧ rank (e.state m) = rank (e.state n) := by
  induction k generalizing n with
  | zero =>
      rcases hk with hown | hnone
      · exact ⟨n, le_rfl, hn, hown, rfl⟩
      · rcases able _ hn with ⟨i, t, hi, ht⟩
        rw [Nat.add_zero] at hnone
        simp [hnone i hi] at ht
  | succ k ih =>
      by_cases hown : own (e.input n)
      · exact ⟨n, le_rfl, hn, hown, rfl⟩
      · rcases others n hn hown with ⟨hnext, hrank⟩
        have hk' : n + (k + 1) = n + 1 + k := by omega
        rw [hk'] at hk
        rcases ih hnext hk with ⟨m, hm, hI, hmove, hsame⟩
        exact ⟨m, by omega, hI, hmove, hsame.trans hrank⟩

/-- A party that can always move, and whose moves lower a well-founded rank that the
others leave alone, gets done. -/
theorem reaches [LT α] [WellFoundedLT α] (rank : σ → α) (done : ι → Prop) (fair : e.Fair own)
    (able : ∀ s, I s → ∃ i t, own i ∧ M.step s i = some t)
    (others : ∀ n, I (e.state n) → ¬own (e.input n) →
      I (e.state (n + 1)) ∧ rank (e.state (n + 1)) = rank (e.state n))
    (mine : ∀ n, I (e.state n) → own (e.input n) → done (e.input n) ∨
      I (e.state (n + 1)) ∧ rank (e.state (n + 1)) < rank (e.state n)) {n : ℕ}
    (hn : I (e.state n)) : ∃ m, n ≤ m ∧ done (e.input m) := by
  induction h : rank (e.state n) using WellFoundedLT.induction generalizing n with
  | ind r ih =>
      rcases fair n with ⟨m, hm, hturn⟩
      rcases Nat.exists_eq_add_of_le hm with ⟨k, rfl⟩
      rcases exists_own_step able others hn hturn with ⟨m, hle, hI, hown, hsame⟩
      rcases mine m hI hown with hdone | ⟨hnext, hless⟩
      · exact ⟨m, hle, hdone⟩
      · rcases ih _ (by rw [← h, ← hsame]; exact hless) hnext rfl with ⟨j, hj, hdone⟩
        exact ⟨j, by omega, hdone⟩

end Execution

end Machine
