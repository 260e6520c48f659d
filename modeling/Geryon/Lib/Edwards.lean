import Mathlib.Algebra.Field.Basic
import Mathlib.Algebra.Group.Even
import Mathlib.Tactic.FieldSimp
import Mathlib.Tactic.LinearCombination
import Mathlib.Tactic.Ring

/-!
# Complete Edwards curves

The points of `x² + y² = 1 + d x² y²` over a field, for `d` not a square: the denominators of the
addition law never vanish (`Point.cross_sq_ne`), so it is defined for all pairs of points. That the
law is associative is proved through the Montgomery form of the curve, in the module after this one.
-/

namespace Edwards

variable {F : Type*} [Field F]

/-- A curve parameter for which the addition law is complete. -/
class Complete (d : F) : Prop where
  two_ne : (2 : F) ≠ 0
  not_isSquare : ¬IsSquare d

/-- The points of the curve. -/
@[ext] structure Point (d : F) where
  x : F
  y : F
  on : x ^ 2 + y ^ 2 = 1 + d * x ^ 2 * y ^ 2

variable {d : F}

namespace Point

instance [DecidableEq F] : DecidableEq (Point d) := fun _ _ => decidable_of_iff _ Point.ext_iff.symm

/-- The point `(0, 1)`. -/
instance : Zero (Point d) := ⟨⟨0, 1, by ring⟩⟩

/-- The negative of `(x, y)` is `(-x, y)`. -/
instance : Neg (Point d) := ⟨fun P => ⟨-P.x, P.y, by linear_combination P.on⟩⟩

/-- The identity is `(0, 1)`. -/
@[simp] theorem zero_x : (0 : Point d).x = 0 := rfl
@[simp] theorem zero_y : (0 : Point d).y = 1 := rfl
@[simp] theorem neg_x (P : Point d) : (-P).x = -P.x := rfl
@[simp] theorem neg_y (P : Point d) : (-P).y = P.y := rfl

section Complete

variable [hd : Complete d]

/-- A nonsquare times a square is a square only at zero. -/
theorem eq_zero_of_sq_eq {a b : F} (h : a ^ 2 = d * b ^ 2) : b = 0 := by
  by_contra hb
  refine hd.not_isSquare ⟨a / b, ?_⟩
  field_simp
  exact h.symm

/-- The curve equation can be solved for the first coordinate. -/
theorem one_sub_mul_sq_ne (y : F) : 1 - d * y ^ 2 ≠ 0 := by
  intro h
  have hy : y = 0 := eq_zero_of_sq_eq (d := d) (a := 1) (b := y) (by linear_combination h)
  exact one_ne_zero (by rw [hy] at h; linear_combination h)

/-- The only point with `y = -1` has `x = 0`. -/
theorem x_eq_zero_of_y_eq {P : Point d} (h : P.y = -1) : P.x = 0 := by
  have hP := P.on
  have h1 := one_sub_mul_sq_ne (d := d) 1
  rw [h] at hP
  have hx : (1 - d * 1 ^ 2) * P.x ^ 2 = 0 := by linear_combination hP
  exact pow_eq_zero_iff two_ne_zero |>.mp ((mul_eq_zero.mp hx).resolve_left h1)

/-- The product that makes a denominator vanish does not occur. -/
theorem cross_sq_ne (P Q : Point d) : (d * P.x * Q.x * P.y * Q.y) ^ 2 ≠ 1 := by
  intro hsq
  have hP := P.on
  have hQ := Q.on
  generalize he : d * P.x * Q.x * P.y * Q.y = e at hsq
  have hcross : d * (P.x * P.y) ^ 2 * (Q.x ^ 2 + Q.y ^ 2) = P.x ^ 2 + P.y ^ 2 := by
    subst he
    linear_combination d * (P.x * P.y) ^ 2 * hQ + hsq - hP
  have hsum : (P.x + e * P.y) ^ 2 = d * (P.x * P.y * (Q.x + Q.y)) ^ 2 := by
    linear_combination P.y ^ 2 * hsq - hcross - 2 * P.x * P.y * he
  have hdiff : (P.x - e * P.y) ^ 2 = d * (P.x * P.y * (Q.x - Q.y)) ^ 2 := by
    linear_combination P.y ^ 2 * hsq - hcross + 2 * P.x * P.y * he
  -- both vanish, and with them the coordinates of one of the points
  have hne : e ≠ 0 := by
    rintro rfl
    exact zero_ne_one (by rw [← hsq, zero_pow two_ne_zero])
  have hprod : P.x * P.y ≠ 0 := by
    intro h0
    exact hne (by rw [← he]; linear_combination d * Q.x * Q.y * h0)
  have hs := (mul_eq_zero.mp (eq_zero_of_sq_eq hsum)).resolve_left hprod
  have ht := (mul_eq_zero.mp (eq_zero_of_sq_eq hdiff)).resolve_left hprod
  have hx : Q.x = 0 := by
    apply (mul_eq_zero.mp (_ : (2 : F) * Q.x = 0)).resolve_left hd.two_ne
    linear_combination hs + ht
  exact hne (by rw [← he, hx]; ring)

/-- The first denominator of the addition does not vanish, as `d` is not a square. -/
theorem one_add_cross_ne (P Q : Point d) : 1 + d * P.x * Q.x * P.y * Q.y ≠ 0 := fun h =>
  cross_sq_ne P Q (by linear_combination (d * P.x * Q.x * P.y * Q.y - 1) * h)

/-- Nor does the second. -/
theorem one_sub_cross_ne (P Q : Point d) : 1 - d * P.x * Q.x * P.y * Q.y ≠ 0 := fun h =>
  cross_sq_ne P Q (by linear_combination (-1 - d * P.x * Q.x * P.y * Q.y) * h)

/-- The sum of two points lies on the curve. -/
theorem add_on (P Q : Point d) :
    ((P.x * Q.y + P.y * Q.x) / (1 + d * P.x * Q.x * P.y * Q.y)) ^ 2 +
        ((P.y * Q.y - P.x * Q.x) / (1 - d * P.x * Q.x * P.y * Q.y)) ^ 2 =
      1 + d * ((P.x * Q.y + P.y * Q.x) / (1 + d * P.x * Q.x * P.y * Q.y)) ^ 2 *
        ((P.y * Q.y - P.x * Q.x) / (1 - d * P.x * Q.x * P.y * Q.y)) ^ 2 := by
  have hP := P.on
  have hQ := Q.on
  have hadd := one_add_cross_ne P Q
  have hsub := one_sub_cross_ne P Q
  generalize he : d * P.x * Q.x * P.y * Q.y = e at hadd hsub ⊢
  -- the two factors of the numerator are both `1 - e²`
  have hleft : P.x ^ 2 + P.y ^ 2 - (Q.x ^ 2 + Q.y ^ 2) * (d * P.x ^ 2 * P.y ^ 2) = 1 - e ^ 2 := by
    subst he
    linear_combination hP - d * P.x ^ 2 * P.y ^ 2 * hQ
  have hright : Q.x ^ 2 + Q.y ^ 2 - (P.x ^ 2 + P.y ^ 2) * (d * Q.x ^ 2 * Q.y ^ 2) = 1 - e ^ 2 := by
    subst he
    linear_combination hQ - d * Q.x ^ 2 * Q.y ^ 2 * hP
  have hsplit : (P.x * Q.y + P.y * Q.x) ^ 2 * (1 - e) ^ 2 +
      (P.y * Q.y - P.x * Q.x) ^ 2 * (1 + e) ^ 2 -
        d * ((P.x * Q.y + P.y * Q.x) * (P.y * Q.y - P.x * Q.x)) ^ 2 =
          (1 - e ^ 2) * (1 - e ^ 2) := by
    calc _ = (P.x ^ 2 + P.y ^ 2 - (Q.x ^ 2 + Q.y ^ 2) * (d * P.x ^ 2 * P.y ^ 2)) *
          (Q.x ^ 2 + Q.y ^ 2 - (P.x ^ 2 + P.y ^ 2) * (d * Q.x ^ 2 * Q.y ^ 2)) := by
            subst he
            ring
      _ = _ := by rw [hleft, hright]
  field_simp
  linear_combination hsplit

/-- The addition law. -/
instance : Add (Point d) where
  add P Q :=
    { x := (P.x * Q.y + P.y * Q.x) / (1 + d * P.x * Q.x * P.y * Q.y)
      y := (P.y * Q.y - P.x * Q.x) / (1 - d * P.x * Q.x * P.y * Q.y)
      on := add_on P Q }

/-- The first coordinate of a sum. -/
theorem add_x (P Q : Point d) :
    (P + Q).x = (P.x * Q.y + P.y * Q.x) / (1 + d * P.x * Q.x * P.y * Q.y) := rfl

/-- The second coordinate of a sum. -/
theorem add_y (P Q : Point d) :
    (P + Q).y = (P.y * Q.y - P.x * Q.x) / (1 - d * P.x * Q.x * P.y * Q.y) := rfl

/-- The same without the quotient. -/
theorem add_x_mul (P Q : Point d) :
    (P + Q).x * (1 + d * P.x * Q.x * P.y * Q.y) = P.x * Q.y + P.y * Q.x :=
  div_mul_cancel₀ _ (one_add_cross_ne P Q)

/-- And for the second coordinate. -/
theorem add_y_mul (P Q : Point d) :
    (P + Q).y * (1 - d * P.x * Q.x * P.y * Q.y) = P.y * Q.y - P.x * Q.x :=
  div_mul_cancel₀ _ (one_sub_cross_ne P Q)

/-- Adding `(0, -1)` negates both coordinates. -/
theorem add_of_y_eq_neg_one {P Q : Point d} (hx : P.x = 0) (hy : P.y = -1) :
    (P + Q).x = -Q.x ∧ (P + Q).y = -Q.y := by
  rw [add_x, add_y, hx, hy]
  simp only [mul_zero, zero_mul, add_zero, sub_zero, div_one]
  constructor <;> ring

theorem add_comm (P Q : Point d) : P + Q = Q + P := by
  apply Point.ext
  · rw [add_x, add_x]
    congr 1 <;> ring
  · rw [add_y, add_y]
    congr 1 <;> ring

theorem zero_add (P : Point d) : 0 + P = P := by
  apply Point.ext
  · simp [add_x]
  · simp [add_y]

theorem neg_add (P : Point d) : -P + P = 0 := by
  have hne := one_sub_cross_ne (-P) P
  apply Point.ext
  · rw [add_x, neg_x, neg_y, zero_x, show -P.x * P.y + P.y * P.x = 0 by ring, zero_div]
  · rw [add_y, div_eq_iff hne]
    simp only [neg_x, neg_y, zero_y]
    linear_combination P.on

end Complete

end Point

end Edwards
