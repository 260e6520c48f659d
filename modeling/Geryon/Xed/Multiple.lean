import Geryon.Xed.Point

/-!
# Scalar multiples and the recovery of points

`pt_scalarmul` computes the multiple for every 448-bit scalar, `gf_invert` the inverse of every
nonzero element, `pt_encode` the encoding of the affine point, and `pt_from_y` the one of the two
points of a `y`-coordinate whose `x` is even.
-/

namespace Geryon

variable {d : Gf}

/-! ## Scalar multiplication -/

section Scalarmul

variable [Edwards.MontgomeryForm d]

/-- One round of double-and-add brings the next bit of the scalar into the multiple. -/
theorem Represents.step {base acc : Pt} {P : Edwards.Point d} (hb : Represents base P)
    {scalar : Bytes UInt8} {i : ℕ}
    (hacc : Represents acc ((LittleEndian.toNat scalar / 2 ^ (i + 1)) • P)) :
    Represents (ptCondSel (ptDouble acc) (ptAdd (ptDouble acc) base d) (scalarBit scalar i))
      ((LittleEndian.toNat scalar / 2 ^ i) • P) := by
  have hdouble := hacc.double
  have hadd := hdouble.add hb
  have hhalf : LittleEndian.toNat scalar / 2 ^ (i + 1) = LittleEndian.toNat scalar / 2 ^ i / 2 := by
    rw [Nat.pow_succ, Nat.div_div_eq_div_mul]
  have hbit : scalarBit scalar i = decide (LittleEndian.toNat scalar / 2 ^ i % 2 = 1) := by
    rw [scalarBit, ← LittleEndian.testBit_toNat, Nat.testBit_eq_decide_div_mod_eq]
  rw [← add_nsmul, hhalf] at hdouble hadd
  rw [← succ_nsmul] at hadd
  rw [hbit]
  generalize LittleEndian.toNat scalar / 2 ^ i = n at hdouble hadd ⊢
  by_cases hodd : n % 2 = 1
  · rw [decide_eq_true hodd, ptCondSel, cond_true]
    rwa [show n / 2 + n / 2 + 1 = n by omega] at hadd
  · rw [decide_eq_false hodd, ptCondSel, cond_false]
    rwa [show n / 2 + n / 2 = n by omega] at hdouble

theorem Represents.scalarmulLoop {base : Pt} {P : Edwards.Point d} (hb : Represents base P)
    (scalar : Bytes UInt8) : ∀ (i : ℕ) {acc : Pt},
      Represents acc ((LittleEndian.toNat scalar / 2 ^ i) • P) →
      Represents (ptScalarmulLoop base scalar d i acc) (LittleEndian.toNat scalar • P)
  | 0, acc, hacc => by
    rw [Nat.pow_zero, Nat.div_one] at hacc
    exact hacc
  | i + 1, acc, hacc => hb.scalarmulLoop scalar i (hb.step hacc)

/-- `pt_scalarmul` computes the multiple by a scalar of 448 bits. -/
theorem Represents.scalarmul {base : Pt} {P : Edwards.Point d} (hb : Represents base P)
    {scalar : Bytes UInt8} (hlen : scalar.length = 56) :
    Represents (ptScalarmul base scalar d) (LittleEndian.toNat scalar • P) := by
  apply hb.scalarmulLoop scalar 448
  have hlt := LittleEndian.toNat_lt scalar
  rw [hlen, show (256 : ℕ) = 2 ^ 8 from rfl, ← Nat.pow_mul] at hlt
  rw [Nat.div_eq_of_lt hlt, zero_nsmul]
  exact represents_identity

end Scalarmul

/-! ## Parity -/

/-- The low bits of an element and its negative differ. -/
theorem gfLobit_neg {x : Gf} (hx : x ≠ 0) : gfLobit (-x) = !gfLobit x := by
  have : NeZero x := ⟨hx⟩
  have hodd := fieldPrime_odd
  have hlt := x.val_lt
  rw [gfLobit, gfLobit, ZMod.neg_val, if_neg hx, Nat.testBit_zero, Nat.testBit_zero]
  rcases Nat.mod_two_eq_zero_or_one x.val with h | h
  · rw [decide_eq_true (by omega), decide_eq_false (by omega), Bool.not_false]
  · rw [decide_eq_false (by omega), decide_eq_true (by omega), Bool.not_true]

/-- The one of a point and its negative whose `x` is even. -/
def evenPoint (P : Edwards.Point d) : Edwards.Point d := bif gfLobit P.x then -P else P

theorem evenPoint_y (P : Edwards.Point d) : (evenPoint P).y = P.y := by
  unfold evenPoint
  cases gfLobit P.x <;> rfl

/-! ## Inversion and encoding -/

section Decaf

variable [Libdecaf]

theorem gfInvert_eq {z : Gf} (hz : z ≠ 0) : gfInvert z = z⁻¹ := by
  obtain ⟨-, hr⟩ := Libdecaf.gfIsr_of_isSquare (pow_ne_zero 2 hz) ⟨z, sq z⟩
  apply eq_inv_of_mul_eq_one_left
  rw [gfInvert]
  linear_combination hr

/-- The encoding of an affine point. -/
def encodePoint (P : Edwards.Point d) (forceZero : Bool) : Bytes UInt8 :=
  let sgn : UInt8 := bif forceZero then 0 else bif gfLobit P.x then 1 else 0
  gfSerialize P.y ++ [sgn <<< 7]

theorem Represents.encode {p : Pt} {P : Edwards.Point d} (h : Represents p P) (forceZero : Bool) :
    ptEncode p forceZero = encodePoint P forceZero := by
  have hx : p.x * gfInvert p.z = P.x := by
    rw [gfInvert_eq h.z_ne, h.x_eq, mul_inv_cancel_right₀ h.z_ne]
  have hy : p.y * gfInvert p.z = P.y := by
    rw [gfInvert_eq h.z_ne, h.y_eq, mul_inv_cancel_right₀ h.z_ne]
  rw [ptEncode, hx, hy, encodePoint]

omit [Libdecaf] in
theorem length_encodePoint (P : Edwards.Point d) (forceZero : Bool) :
    (encodePoint P forceZero).length = 57 := by
  rw [encodePoint, List.length_append, gfSerialize, LittleEndian.length_ofNat,
    List.length_singleton]

omit [Libdecaf] in
/-- The sign bit of an encoding without it does not tell a point from its negative. -/
theorem encodePoint_evenPoint (P : Edwards.Point d) :
    encodePoint (evenPoint P) true = encodePoint P true := by
  rw [encodePoint, encodePoint, evenPoint_y]
  rfl

/-! ## Recovering a point -/

variable [hd : Edwards.Complete d]

/-- `pt_from_y` finds the point with an even `x`, for the `y` of any point off the axis `x = 0`. -/
theorem ptFromY_spec (P : Edwards.Point d) (hx : P.x ≠ 0) (wantSign : Bool) :
    (ptFromY P.y true wantSign d).2 = true ∧
      Represents (ptFromY P.y true wantSign d).1 (evenPoint P) := by
  have hP := P.on
  have hden : 1 - d * P.y ^ 2 ≠ 0 := Edwards.Point.one_sub_mul_sq_ne P.y
  have hnum : 1 - P.y ^ 2 = P.x ^ 2 * (1 - d * P.y ^ 2) := by linear_combination -hP
  have hprod : (1 - P.y ^ 2) * (1 - d * P.y ^ 2) = (P.x * (1 - d * P.y ^ 2)) ^ 2 := by
    rw [hnum]
    ring
  have hne : (1 - P.y ^ 2) * (1 - d * P.y ^ 2) ≠ 0 := by
    rw [hprod]
    exact pow_ne_zero 2 (mul_ne_zero hx hden)
  obtain ⟨hok, hr⟩ := Libdecaf.gfIsr_of_isSquare hne ⟨_, hprod.trans (sq _)⟩
  refine ⟨hok, ?_⟩
  -- the root is one of the two `x` of this `y`
  have hroot : (1 - P.y ^ 2) * (Libdecaf.gfIsr ((1 - P.y ^ 2) * (1 - d * P.y ^ 2))).1 = P.x ∨
      (1 - P.y ^ 2) * (Libdecaf.gfIsr ((1 - P.y ^ 2) * (1 - d * P.y ^ 2))).1 = -P.x := by
    apply sq_eq_sq_iff_eq_or_eq_neg.mp
    apply mul_right_cancel₀ hden
    rw [← hnum]
    linear_combination (1 - P.y ^ 2) * hr
  unfold ptFromY
  dsimp only
  rw [cond_true, Bool.xor_false]
  rcases hroot with hroot | hroot
  · rw [hroot, evenPoint]
    cases gfLobit P.x with
    | false => exact represents_affine P
    | true => exact represents_affine (-P)
  · rw [hroot, evenPoint, gfLobit_neg hx]
    cases gfLobit P.x with
    | false =>
      rw [Bool.not_false, cond_true, neg_neg]
      exact represents_affine P
    | true => exact represents_affine (-P)

end Decaf

end Geryon
