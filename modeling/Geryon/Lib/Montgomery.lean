import Geryon.Lib.Edwards
import Mathlib.AlgebraicGeometry.EllipticCurve.Affine.Point

/-!
# The Montgomery form of a complete Edwards curve

The curve `v² = u³ + A u² + u` is a Weierstrass curve, whose points form a group. The map
`(u, v) ↦ (c u / v, (u + 1) / (u - 1))`, for `c² = A - 2` and `d c² = A + 2`, is a bijection onto
the points of the Edwards curve with parameter `d`, and takes the chord-and-tangent law to the
Edwards addition law (`toEdwards_add`). So the addition law of the Edwards curve is a group law.

Division by zero is zero in a field here, so the formulas also cover the point `(0, 0)`, which goes
to `(0, -1)`. The coordinate `u = 1` does not occur.
-/

namespace Edwards

open WeierstrassCurve.Affine

variable {F : Type*} [Field F]

/-- The coefficients of the Montgomery form of the curve with parameter `d`. -/
class MontgomeryForm (d : F) extends Complete d where
  A : F
  c : F
  c_ne : c ≠ 0
  c_sq : c ^ 2 = A - 2
  d_mul : d * c ^ 2 = A + 2

/-- The Montgomery curve `v² = u³ + A u² + u`. -/
def montgomery (d : F) [M : MontgomeryForm d] : WeierstrassCurve.Affine F := ⟨0, M.A, 0, 1, 0⟩

variable {d : F} [M : MontgomeryForm d]

/-- The equation of the Montgomery curve. -/
theorem equation_montgomery {u v : F} :
    (montgomery d).Equation u v ↔ v ^ 2 = u ^ 3 + M.A * u ^ 2 + u := by
  rw [equation_iff]
  simp only [montgomery]
  ring_nf

/-- Its negation. -/
theorem negY_montgomery (u v : F) : (montgomery d).negY u v = -v := by
  simp [negY, montgomery]

/-- It is not singular. -/
theorem montgomery_Δ_ne : (montgomery d).Δ ≠ 0 := by
  have hd : d ≠ 0 := fun h => M.not_isSquare (h ▸ IsSquare.zero)
  have hdisc : (montgomery d).Δ = 2 ^ 4 * (d * M.c ^ 2 * M.c ^ 2) := by
    rw [M.d_mul, M.c_sq]
    simp only [montgomery, WeierstrassCurve.Δ, WeierstrassCurve.b₂, WeierstrassCurve.b₄,
      WeierstrassCurve.b₆, WeierstrassCurve.b₈]
    ring
  rw [hdisc]
  exact mul_ne_zero (pow_ne_zero _ M.two_ne)
    (mul_ne_zero (mul_ne_zero hd (pow_ne_zero _ M.c_ne)) (pow_ne_zero _ M.c_ne))

/-- The point of the Montgomery curve with coordinates that satisfy its equation. -/
def montPoint (u v : F) (h : v ^ 2 = u ^ 3 + M.A * u ^ 2 + u) : (montgomery d).Point :=
  .some u v ((equation_iff_nonsingular_of_Δ_ne_zero montgomery_Δ_ne).mp (equation_montgomery.mpr h))

/-! ## The map -/

section Coordinates

variable {u v : F} (h : v ^ 2 = u ^ 3 + M.A * u ^ 2 + u)
include h

/-- No point has the first coordinate one. -/
theorem u_ne_one : u ≠ 1 := by
  rintro rfl
  have hsq : v ^ 2 = d * M.c ^ 2 := by
    rw [h, M.d_mul]
    ring
  exact M.c_ne (Point.eq_zero_of_sq_eq hsq)

/-- Only `(0, 0)` has `v = 0`. -/
theorem u_eq_zero (hv : v = 0) : u = 0 := by
  by_contra hu
  have hfactor : u * (u ^ 2 + M.A * u + 1) = 0 := by
    rw [hv] at h
    linear_combination -h
  have hquad := (mul_eq_zero.mp hfactor).resolve_left hu
  -- the discriminant of the quadratic factor is not a square
  have hsq : (M.c * (2 * u + M.A)) ^ 2 = d * (M.c ^ 2 * M.c) ^ 2 := by
    have hd := M.d_mul
    have hc := M.c_sq
    linear_combination 4 * M.c ^ 2 * hquad - M.c ^ 4 * hd + M.c ^ 2 * (M.A + 2) * (-hc)
  exact M.c_ne (pow_eq_zero_iff three_ne_zero |>.mp
    (by linear_combination Point.eq_zero_of_sq_eq (d := d) hsq))

/-- The image of a point is on the Edwards curve. -/
theorem toEdwards_on :
    (M.c * u / v) ^ 2 + ((u + 1) / (u - 1)) ^ 2 =
      1 + d * (M.c * u / v) ^ 2 * ((u + 1) / (u - 1)) ^ 2 := by
  have hu : u - 1 ≠ 0 := sub_ne_zero.mpr (u_ne_one h)
  by_cases hv : v = 0
  · rw [u_eq_zero h hv]
    simp
  · field_simp
    have hd := M.d_mul
    have hc := M.c_sq
    linear_combination 4 * u * h + u ^ 2 * (u - 1) ^ 2 * hc - u ^ 2 * (u + 1) ^ 2 * hd

end Coordinates

/-- The image of the point with coordinates `(u, v)`. -/
def edPoint (u v : F) (h : v ^ 2 = u ^ 3 + M.A * u ^ 2 + u) : Point d :=
  ⟨M.c * u / v, (u + 1) / (u - 1), toEdwards_on h⟩

/-- The birational map, on all points of the Montgomery curve. -/
def toEdwards : (montgomery d).Point → Point d
  | .zero => 0
  | .some u v h => edPoint u v (equation_montgomery.mp h.1)

@[simp] theorem toEdwards_zero : toEdwards (0 : (montgomery d).Point) = 0 := rfl

/-- The image of a finite point. -/
theorem toEdwards_montPoint {u v : F} (h : v ^ 2 = u ^ 3 + M.A * u ^ 2 + u) :
    toEdwards (montPoint u v h) = edPoint u v h := rfl

/-- The map keeps negation. -/
@[simp] theorem toEdwards_neg (P : (montgomery d).Point) : toEdwards (-P) = -toEdwards P := by
  cases P with
  | zero => exact Point.ext (neg_zero (G := F)).symm rfl
  | some u v h =>
    apply Point.ext
    · show M.c * u / (montgomery d).negY u v = -(M.c * u / v)
      rw [negY_montgomery, div_neg]
    · rfl

/-! ## Chords -/

/-- Two points of the Montgomery curve and the negative of the third point on their line
`v = l u + m`, through the symmetric functions of the three `u`-coordinates. -/
structure Chord (A u₁ v₁ u₂ v₂ u₃ v₃ l m : F) : Prop where
  on₁ : v₁ = l * u₁ + m
  on₂ : v₂ = l * u₂ + m
  on₃ : v₃ = -(l * u₃ + m)
  sum : u₁ + u₂ + u₃ = l ^ 2 - A
  pairs : u₁ * u₂ + u₁ * u₃ + u₂ * u₃ = 1 - 2 * l * m
  prod : u₁ * u₂ * u₃ = m ^ 2

namespace Chord

section Identities

variable {A u₁ v₁ u₂ v₂ u₃ v₃ l m : F} (C : Chord A u₁ v₁ u₂ v₂ u₃ v₃ l m)
include C

/-- The polynomial identity behind the second coordinate of a sum. -/
theorem y_eq :
    (u₃ + 1) * (v₁ * v₂ * (u₁ - 1) * (u₂ - 1) - (A + 2) * u₁ * u₂ * (u₁ + 1) * (u₂ + 1)) =
      (u₃ - 1) * (v₁ * v₂ * (u₁ + 1) * (u₂ + 1) - (A - 2) * u₁ * u₂ * (u₁ - 1) * (u₂ - 1)) := by
  obtain ⟨rfl, rfl, -, hsum, hpairs, hprod⟩ := C
  linear_combination
    (-2 * u₁ ^ 2 * u₂ ^ 2 - 2 * u₁ ^ 2 * u₂ * u₃ - 2 * u₁ * u₂ ^ 2 * u₃ - 2 * u₁ * u₂) * hsum +
    (2 * u₁ ^ 2 * u₂ + 2 * u₁ * u₂ ^ 2 - 2 * u₁ * l * m - 2 * u₂ * l * m) * hpairs +
    (-4 * u₁ * l ^ 2 - 4 * u₂ * l ^ 2 - 2 * u₁ * u₂ + 2 * u₁ * u₃ + 2 * u₂ * u₃ - 2) * hprod

/-- And behind the first. -/
theorem x_eq :
    u₃ * (v₁ * v₂ * (u₁ - 1) * (u₂ - 1) + (A + 2) * u₁ * u₂ * (u₁ + 1) * (u₂ + 1)) =
      v₃ * (u₁ * v₂ * (u₁ - 1) * (u₂ + 1) + u₂ * v₁ * (u₁ + 1) * (u₂ - 1)) := by
  obtain ⟨rfl, rfl, rfl, hsum, hpairs, hprod⟩ := C
  linear_combination
    (u₁ ^ 2 * u₂ ^ 2 * u₃ + u₁ ^ 2 * u₂ * u₃ + u₁ * u₂ ^ 2 * u₃ + u₁ * u₂ * u₃) * hsum +
    (2 * u₁ * u₂ * l * m - 2 * m ^ 2) * hpairs +
    (4 * u₁ * u₂ * l ^ 2 - u₁ ^ 2 * u₂ - u₁ * u₂ ^ 2 - u₁ * u₂ * u₃ - u₁ ^ 2 - u₁ * u₃ -
      u₂ ^ 2 - u₂ * u₃ - 4 * l * m + u₁ + u₂ - u₃ + 2) * hprod

/-- The two points of a chord in the other order. -/
theorem swap : Chord A u₂ v₂ u₁ v₁ u₃ v₃ l m where
  on₁ := C.on₂
  on₂ := C.on₁
  on₃ := C.on₃
  sum := by linear_combination C.sum
  pairs := by linear_combination C.pairs
  prod := by linear_combination C.prod

end Identities

/-- The chord-and-tangent law of the Montgomery curve. -/
theorem of_add [DecidableEq F] {u₁ v₁ u₂ v₂ : F} (h₁ : (montgomery d).Equation u₁ v₁)
    (h₂ : (montgomery d).Equation u₂ v₂) (hxy : ¬(u₁ = u₂ ∧ v₁ = (montgomery d).negY u₂ v₂)) :
    Chord M.A u₁ v₁ u₂ v₂
      ((montgomery d).addX u₁ u₂ ((montgomery d).slope u₁ u₂ v₁ v₂))
      ((montgomery d).addY u₁ u₂ v₁ ((montgomery d).slope u₁ u₂ v₁ v₂))
      ((montgomery d).slope u₁ u₂ v₁ v₂) (v₁ - (montgomery d).slope u₁ u₂ v₁ v₂ * u₁) := by
  have hpoly := addPolynomial_slope h₁ h₂ hxy
  rw [addPolynomial_eq, neg_inj, Cubic.prod_X_sub_C_eq, Cubic.toPoly_injective] at hpoly
  obtain ⟨-, -, hpairs, hprod⟩ := Cubic.mk.inj hpoly
  have hon : v₂ = (montgomery d).slope u₁ u₂ v₁ v₂ * (u₂ - u₁) + v₁ := by
    by_cases hu : u₁ = u₂
    · rw [Y_eq_of_Y_ne h₁ h₂ hu fun hv => hxy ⟨hu, hv⟩, hu]
      ring
    · rw [slope_of_X_ne hu]
      have hne := sub_ne_zero.mpr hu
      field_simp
      ring
  generalize (montgomery d).slope u₁ u₂ v₁ v₂ = l at hpairs hprod hon ⊢
  simp only [montgomery] at hpairs hprod
  refine ⟨by ring, by linear_combination hon, ?_, ?_, ?_, ?_⟩
  · simp only [addY, negAddY, addX, negY, montgomery]
    ring
  · simp only [addX, montgomery]
    ring
  · simp only [addX, montgomery] at hpairs ⊢
    linear_combination -hpairs
  · simp only [addX, montgomery] at hprod ⊢
    linear_combination hprod

end Chord

/-! ## The map is an isomorphism -/

section Images

variable {u₁ v₁ u₂ v₂ u₃ v₃ l m : F} (C : Chord M.A u₁ v₁ u₂ v₂ u₃ v₃ l m)
  (h₁ : v₁ ^ 2 = u₁ ^ 3 + M.A * u₁ ^ 2 + u₁) (h₂ : v₂ ^ 2 = u₂ ^ 3 + M.A * u₂ ^ 2 + u₂)
  (h₃ : v₃ ^ 2 = u₃ ^ 3 + M.A * u₃ ^ 2 + u₃)
include C

/-- The point `(0, 0)` goes to `(0, -1)`, and adding it negates both coordinates. -/
theorem Chord.edPoint_of_v_eq_zero (hv : v₁ = 0) :
    edPoint u₃ v₃ h₃ = edPoint u₁ v₁ h₁ + edPoint u₂ v₂ h₂ := by
  have hu : u₁ = 0 := u_eq_zero h₁ hv
  have hm : m = 0 := by
    have h := C.on₁
    rw [hu, hv] at h
    linear_combination -h
  have hprod : u₂ * u₃ = 1 := by
    have h := C.pairs
    rw [hu, hm] at h
    linear_combination h
  have hv₂ : v₂ = l * u₂ := by rw [C.on₂, hm, add_zero]
  have hv₃ : v₃ = -(l * u₃) := by rw [C.on₃, hm, add_zero]
  have hne₂ : u₂ ≠ 0 := left_ne_zero_of_mul_eq_one hprod
  have hne₃ : u₃ ≠ 0 := right_ne_zero_of_mul_eq_one hprod
  have hw₂ : u₂ - 1 ≠ 0 := sub_ne_zero.mpr (u_ne_one h₂)
  have hw₃ : u₃ - 1 ≠ 0 := sub_ne_zero.mpr (u_ne_one h₃)
  obtain ⟨hx, hy⟩ := Point.add_of_y_eq_neg_one (P := edPoint u₁ v₁ h₁) (Q := edPoint u₂ v₂ h₂)
    (by simp [edPoint, hu]) (by simp [edPoint, hu])
  apply Point.ext
  · rw [hx]
    simp only [edPoint, hv₂, hv₃]
    by_cases hl : l = 0
    · simp [hl]
    · field_simp
  · rw [hy]
    simp only [edPoint]
    rw [← neg_div, div_eq_div_iff hw₃ hw₂]
    linear_combination 2 * hprod

/-- The image of the sum of two points other than `(0, 0)`. -/
theorem Chord.edPoint_of_v_ne_zero (hv₁ : v₁ ≠ 0) (hv₂ : v₂ ≠ 0) :
    edPoint u₃ v₃ h₃ = edPoint u₁ v₁ h₁ + edPoint u₂ v₂ h₂ := by
  have hd := M.d_mul
  have hc := M.c_sq
  have hw₁ : u₁ - 1 ≠ 0 := sub_ne_zero.mpr (u_ne_one h₁)
  have hw₂ : u₂ - 1 ≠ 0 := sub_ne_zero.mpr (u_ne_one h₂)
  have hw₃ : u₃ - 1 ≠ 0 := sub_ne_zero.mpr (u_ne_one h₃)
  have hy : (edPoint u₃ v₃ h₃).y = (edPoint u₁ v₁ h₁ + edPoint u₂ v₂ h₂).y := by
    have hne := Point.one_sub_cross_ne (edPoint u₁ v₁ h₁) (edPoint u₂ v₂ h₂)
    rw [Point.add_y]
    simp only [edPoint] at hne ⊢
    rw [div_eq_div_iff hw₃ hne]
    field_simp
    linear_combination C.y_eq - (u₃ + 1) * u₁ * u₂ * (u₁ + 1) * (u₂ + 1) * hd +
      (u₃ - 1) * u₁ * u₂ * (u₁ - 1) * (u₂ - 1) * hc
  refine Point.ext ?_ hy
  by_cases hv₃ : v₃ = 0
  · -- both points have `y = -1`, and so `x = 0`
    have hu₃ : u₃ = 0 := u_eq_zero h₃ hv₃
    have hy₃ : (edPoint u₃ v₃ h₃).y = -1 := by simp [edPoint, hu₃]
    rw [Point.x_eq_zero_of_y_eq hy₃, Point.x_eq_zero_of_y_eq (hy.symm.trans hy₃)]
  · have hne := Point.one_add_cross_ne (edPoint u₁ v₁ h₁) (edPoint u₂ v₂ h₂)
    rw [Point.add_x]
    simp only [edPoint] at hne ⊢
    rw [div_eq_div_iff hv₃ hne]
    field_simp
    linear_combination M.c * C.x_eq + M.c * u₃ * u₁ * u₂ * (u₁ + 1) * (u₂ + 1) * hd

/-- So the map keeps the sum of two points on a chord. -/
theorem Chord.edPoint_eq : edPoint u₃ v₃ h₃ = edPoint u₁ v₁ h₁ + edPoint u₂ v₂ h₂ := by
  by_cases hv₁ : v₁ = 0
  · exact C.edPoint_of_v_eq_zero h₁ h₂ h₃ hv₁
  by_cases hv₂ : v₂ = 0
  · rw [Point.add_comm]
    exact C.swap.edPoint_of_v_eq_zero h₂ h₁ h₃ hv₂
  · exact C.edPoint_of_v_ne_zero h₁ h₂ h₃ hv₁ hv₂

end Images

/-- The map takes the group law of the Montgomery curve to the Edwards addition law. -/
theorem toEdwards_add [DecidableEq F] (P Q : (montgomery d).Point) :
    toEdwards (P + Q) = toEdwards P + toEdwards Q := by
  cases P with
  | zero =>
    show toEdwards (0 + Q) = 0 + toEdwards Q
    rw [zero_add, Point.zero_add]
  | some u₁ v₁ h₁ => cases Q with
    | zero =>
      show toEdwards (_ + 0) = toEdwards _ + 0
      rw [add_zero, Point.add_comm, Point.zero_add]
    | some u₂ v₂ h₂ =>
      by_cases hxy : u₁ = u₂ ∧ v₁ = (montgomery d).negY u₂ v₂
      · obtain ⟨rfl, rfl⟩ := hxy
        have hneg : WeierstrassCurve.Affine.Point.some u₁ _ h₁ =
            -(WeierstrassCurve.Affine.Point.some u₁ v₂ h₂) := rfl
        rw [hneg, neg_add_cancel, toEdwards_neg, Point.neg_add, toEdwards_zero]
      · rw [WeierstrassCurve.Affine.Point.add_some hxy]
        exact (Chord.of_add h₁.1 h₂.1 hxy).edPoint_eq (equation_montgomery.mp h₁.1)
          (equation_montgomery.mp h₂.1) (equation_montgomery.mp (nonsingular_add h₁ h₂ hxy).1)

/-- Every point of the Edwards curve comes from the Montgomery curve. -/
theorem toEdwards_surjective : Function.Surjective (toEdwards (d := d)) := by
  intro P
  have hP := P.on
  by_cases hx : P.x = 0
  · -- the points `(0, 1)` and `(0, -1)`
    have hy : P.y ^ 2 = 1 ^ 2 := by
      rw [hx] at hP
      linear_combination hP
    rcases eq_or_eq_neg_of_sq_eq_sq _ _ hy with hy | hy
    · exact ⟨0, Point.ext hx.symm hy.symm⟩
    · refine ⟨montPoint 0 0 (by ring), Point.ext ?_ ?_⟩
      · simp [toEdwards_montPoint, edPoint, hx]
      · simp [toEdwards_montPoint, edPoint, hy]
  · have hd := M.d_mul
    have hc := M.c_sq
    have htwo := M.two_ne
    have hcne := M.c_ne
    have hy₁ : P.y - 1 ≠ 0 := by
      intro h
      refine mul_ne_zero (Point.one_sub_mul_sq_ne (d := d) 1) (pow_ne_zero 2 hx) ?_
      rw [sub_eq_zero.mp h] at hP
      linear_combination hP
    have hy₂ : P.y + 1 ≠ 0 := fun h =>
      hx (Point.x_eq_zero_of_y_eq (by linear_combination h))
    refine ⟨montPoint ((P.y + 1) / (P.y - 1)) (M.c * ((P.y + 1) / (P.y - 1)) / P.x) ?_,
      Point.ext ?_ ?_⟩
    · field_simp
      linear_combination M.c ^ 2 * hP + P.x ^ 2 * P.y ^ 2 * hd - P.x ^ 2 * hc
    · simp only [toEdwards_montPoint, edPoint]
      field_simp
    · simp only [toEdwards_montPoint, edPoint]
      have hone : (P.y + 1) / (P.y - 1) - 1 ≠ 0 := by
        rw [div_sub_one hy₁]
        refine div_ne_zero ?_ hy₁
        rwa [show P.y + 1 - (P.y - 1) = 2 by ring]
      rw [div_eq_iff hone]
      field_simp
      ring

/-- The addition law of the Edwards curve is a group law: it is the image of the group law of the
Montgomery curve. -/
instance : AddCommGroup (Point d) where
  add_assoc P Q R := by
    classical
    obtain ⟨P, rfl⟩ := toEdwards_surjective P
    obtain ⟨Q, rfl⟩ := toEdwards_surjective Q
    obtain ⟨R, rfl⟩ := toEdwards_surjective R
    simp only [← toEdwards_add, add_assoc]
  zero_add := Point.zero_add
  add_zero P := by rw [Point.add_comm, Point.zero_add]
  neg_add_cancel := Point.neg_add
  add_comm := Point.add_comm
  nsmul := nsmulRec
  zsmul := zsmulRec

/-- The map as a homomorphism of groups. -/
def toEdwardsHom [DecidableEq F] : (montgomery d).Point →+ Point d where
  toFun := toEdwards
  map_zero' := toEdwards_zero
  map_add' := toEdwards_add

@[simp] theorem toEdwardsHom_apply [DecidableEq F] (P : (montgomery d).Point) :
    toEdwardsHom P = toEdwards P := rfl

/-- And multiples. -/
theorem toEdwards_nsmul [DecidableEq F] (n : ℕ) (P : (montgomery d).Point) :
    toEdwards (n • P) = n • toEdwards P :=
  map_nsmul toEdwardsHom n P

end Edwards
