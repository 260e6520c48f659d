import Mathlib.RingTheory.AdjoinRoot
import Mathlib.Algebra.Polynomial.Monic

/-!
# Negacyclic polynomials

The quotient ring `R[X] / (Xⁿ + 1)` with its elements as vectors of `n` coefficients, and the size
of a product with a sparse polynomial: multiplying by a polynomial that has `t` coefficients `1` or
`-1` and no others makes the largest coefficient at most `t` times as large. Size is any measure on
`R` that a sign does not change and that a sum adds up at most.
-/

open Polynomial

/-- The modulus `Xⁿ + 1`. -/
noncomputable abbrev negacyclicPoly (n : ℕ) (R : Type*) [CommRing R] : R[X] := X ^ n + C 1

/-- The ring `R[X] / (Xⁿ + 1)`. -/
abbrev Negacyclic (n : ℕ) (R : Type*) [CommRing R] : Type _ := AdjoinRoot (negacyclicPoly n R)

namespace Negacyclic

variable {n : ℕ} {R : Type*} [CommRing R]

/-- `X ^ n + 1` is monic. -/
theorem monic_poly [NeZero n] : (negacyclicPoly n R).Monic := monic_X_pow_add_C 1 (NeZero.ne n)

/-- The power `n` of the variable is `-1`. -/
theorem root_pow : AdjoinRoot.root (negacyclicPoly n R) ^ n = -1 := by
  have h : AdjoinRoot.mk (negacyclicPoly n R) (X ^ n + C 1) = 0 := AdjoinRoot.mk_self
  rw [map_add, map_pow, AdjoinRoot.mk_X, AdjoinRoot.mk_C, map_one] at h
  exact eq_neg_of_add_eq_zero_left h

variable [Nontrivial R]

section Coefficients

variable [NeZero n]

/-- The powers of `X` below `n` as a basis. -/
noncomputable def basis : Module.Basis (Fin n) R (Negacyclic n R) :=
  (AdjoinRoot.powerBasis' monic_poly).basis.reindex
    (finCongr ((AdjoinRoot.powerBasis'_dim monic_poly).trans natDegree_X_pow_add_C))

/-- The coefficients of an element. -/
noncomputable def coeffs : Negacyclic n R ≃ₗ[R] (Fin n → R) := basis.equivFun

/-- The element with given coefficients. -/
noncomputable def ofCoeffs : (Fin n → R) ≃ₗ[R] Negacyclic n R := coeffs.symm

/-- The coefficients of the element made of some coefficients. -/
@[simp] theorem coeffs_ofCoeffs (a : Fin n → R) : coeffs (ofCoeffs a) = a :=
  coeffs.apply_symm_apply a

/-- The basis consists of the powers of the root. -/
theorem basis_apply (i : Fin n) :
    (basis i : Negacyclic n R) = AdjoinRoot.root (negacyclicPoly n R) ^ (i : ℕ) := by
  rw [basis, Module.Basis.reindex_apply, PowerBasis.basis_eq_pow]
  rfl

/-- An element is the sum of its coefficients times the powers of the root. -/
theorem ofCoeffs_eq_sum (a : Fin n → R) :
    ofCoeffs a = ∑ i, a i • AdjoinRoot.root (negacyclicPoly n R) ^ (i : ℕ) := by
  rw [ofCoeffs, coeffs, Module.Basis.equivFun_symm_apply]
  simp only [basis_apply]

end Coefficients

/-! ## The size of a product -/

/-- A measure of the elements of `R` for which a sign does not count. -/
structure Size (R : Type*) [CommRing R] where
  /-- The measure. -/
  val : R → ℕ
  zero : val 0 = 0
  neg : ∀ a, val (-a) = val a
  add : ∀ a b, val (a + b) ≤ val a + val b

variable {m : ℕ}

/-- Multiplication by the variable moves every coefficient up; the last one comes round with the
other sign. -/
theorem root_mul_ofCoeffs (a : Fin (m + 1) → R) :
    AdjoinRoot.root (negacyclicPoly (m + 1) R) * ofCoeffs a =
      ofCoeffs (Fin.cons (-a (Fin.last m)) fun i => a i.castSucc) := by
  rw [ofCoeffs_eq_sum, ofCoeffs_eq_sum, Finset.mul_sum, Fin.sum_univ_castSucc, Fin.sum_univ_succ]
  refine (add_comm _ _).trans ?_
  congr 1
  · rw [Fin.val_last, Algebra.mul_smul_comm, ← pow_succ', root_pow, Fin.cons_zero, Fin.val_zero,
      pow_zero, neg_smul, smul_neg]
  · apply Finset.sum_congr rfl
    intro i _
    rw [Fin.cons_succ, Algebra.mul_smul_comm, ← pow_succ', Fin.val_castSucc, Fin.val_succ]

variable (v : Size R) {B : ℕ}

/-- Every coefficient has at most a given size. -/
def Bounded [NeZero n] (B : ℕ) (x : Negacyclic n R) : Prop := ∀ i, v.val (coeffs x i) ≤ B

/-- Multiplying by the root moves the coefficients and keeps their bound. -/
theorem Bounded.root_mul {x : Negacyclic (m + 1) R} (hx : Bounded v B x) :
    Bounded v B (AdjoinRoot.root (negacyclicPoly (m + 1) R) * x) := by
  obtain ⟨a, rfl⟩ := ofCoeffs.surjective x
  rw [root_mul_ofCoeffs]
  intro i
  rw [coeffs_ofCoeffs]
  simp only [Bounded, coeffs_ofCoeffs] at hx
  cases i using Fin.cases with
  | zero => rw [Fin.cons_zero, v.neg]; exact hx _
  | succ i => rw [Fin.cons_succ]; exact hx _

/-- So does multiplying by a power of it. -/
theorem Bounded.root_pow_mul {x : Negacyclic (m + 1) R} (hx : Bounded v B x) (k : ℕ) :
    Bounded v B (AdjoinRoot.root (negacyclicPoly (m + 1) R) ^ k * x) := by
  induction k with
  | zero => rwa [pow_zero, one_mul]
  | succ k ih => rw [pow_succ', mul_assoc]; exact ih.root_mul v

/-- The size of a sum of elements is at most the sum of the sizes. -/
theorem size_coeffs_sum_le [NeZero n] {ι : Type*} (s : Finset ι) (f : ι → Negacyclic n R)
    (i : Fin n) : v.val (coeffs (∑ j ∈ s, f j) i) ≤ ∑ j ∈ s, v.val (coeffs (f j) i) := by
  classical
  induction s using Finset.induction with
  | empty => simp [v.zero]
  | insert j s hj ih =>
    rw [Finset.sum_insert hj, Finset.sum_insert hj, map_add, Pi.add_apply]
    exact (v.add _ _).trans (Nat.add_le_add_left ih _)

/-- A polynomial that has only the coefficients `0`, `1` and `-1`. -/
def Signs (c : Fin n → R) : Prop := ∀ i, c i = 0 ∨ c i = 1 ∨ c i = -1

/-- A multiplier of signs scales the bound by the number of its non-zero coefficients. -/
theorem Bounded.signs_mul_succ [DecidableEq R] {x : Negacyclic (m + 1) R} (hx : Bounded v B x)
    {c : Fin (m + 1) → R} (hc : Signs c) :
    Bounded v ((Finset.univ.filter fun i => c i ≠ 0).card * B) (ofCoeffs c * x) := by
  intro i
  rw [ofCoeffs_eq_sum, Finset.sum_mul]
  refine (size_coeffs_sum_le v _ _ i).trans ?_
  have hterm : ∀ j, v.val (coeffs ((c j • AdjoinRoot.root (negacyclicPoly (m + 1) R) ^ (j : ℕ)) *
      x) i) ≤ if c j ≠ 0 then B else 0 := by
    intro j
    rw [smul_mul_assoc, map_smul, Pi.smul_apply, smul_eq_mul]
    have hpow := hx.root_pow_mul v j i
    obtain h0 | h1 | h1 := hc j
    · rw [h0, zero_mul, v.zero]
      exact Nat.zero_le _
    · rw [h1, one_mul, if_pos one_ne_zero]
      exact hpow
    · rw [h1, neg_one_mul, v.neg, if_pos (neg_ne_zero.mpr one_ne_zero)]
      exact hpow
  calc ∑ j, v.val (coeffs ((c j • AdjoinRoot.root (negacyclicPoly (m + 1) R) ^ (j : ℕ)) * x) i)
      ≤ ∑ j, if c j ≠ 0 then B else 0 := Finset.sum_le_sum fun j _ => hterm j
    _ = (Finset.univ.filter fun i => c i ≠ 0).card * B := by
      rw [← Finset.sum_filter, Finset.sum_const, smul_eq_mul]

/-- The product with a polynomial of signs is at most as many times as large as it has coefficients
that are not zero. -/
theorem Bounded.signs_mul [NeZero n] [DecidableEq R] {x : Negacyclic n R} (hx : Bounded v B x)
    {c : Fin n → R} (hc : Signs c) {t : ℕ} (ht : (Finset.univ.filter fun i => c i ≠ 0).card = t) :
    Bounded v (t * B) (ofCoeffs c * x) := by
  obtain ⟨m, rfl⟩ := Nat.exists_eq_succ_of_ne_zero (NeZero.ne n)
  exact ht ▸ hx.signs_mul_succ v hc

end Negacyclic
