import Mathlib.Tactic.Common
import Mathlib.Logic.Function.Iterate
import Mathlib.Order.Basic

/-!
# Derivation chains

A sequence in which every element is derived from the one before by a derivation that can be
inverted, and whose first element is never derived, has no repetitions.
-/

namespace Chain

variable {α : Type*}

/-- A sequence up to `N` has no repetitions if equal successors have equal predecessors and the
first element never occurs again. -/
theorem eq_of_eq_of_step {a : ℕ → α} {N : ℕ} (hstart : ∀ m, m < N → a 0 ≠ a (m + 1))
    (hstep : ∀ i j, i < N → j < N → a (i + 1) = a (j + 1) → a i = a j) :
    ∀ i j, i ≤ N → j ≤ N → a i = a j → i = j := by
  intro i
  induction i with
  | zero =>
    intro j _ hj h
    cases j with
    | zero => rfl
    | succ j => exact absurd h (hstart j hj)
  | succ i ih =>
    intro j hi hj h
    cases j with
    | zero => exact absurd h.symm (hstart i hi)
    | succ j => rw [ih j (by omega) (by omega) (hstep i j hi hj h)]

end Chain
