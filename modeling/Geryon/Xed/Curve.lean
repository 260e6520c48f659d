import Geryon.Xed.Multiple
import Mathlib.GroupTheory.OrderOfElement
import Mathlib.NumberTheory.LegendreSymbol.Basic

/-!
# The curve of XEd448 and its base point

The parameter `d = 39082 / 39081` is not a square, the Edwards curve has Curve448 as its Montgomery
form, and the base point, the image of `u = 5`, has prime order `groupOrder`. The facts about fixed
field elements are checked by computation, the order by running `pt_scalarmul`.
-/

namespace Geryon

open Edwards (MontgomeryForm toEdwards montPoint edPoint)

/-! ## The parameter -/

/-- `39082 / 39081` as an integer. -/
def edwardsDNat : ℕ :=
  0xd78b4bdc7f0daf19f24f38c29373a2ccad46157242a50f37809b1da3 * 2 ^ 224 +
    0x412a12e79ccc9c81264cfe9ad080997058fb61c4243cc32dbaa156b9

/-- The parameter of the curve. -/
def edwardsD : Gf := (edwardsDNat : Gf)

/-- A square root of 156324. -/
def montC : Gf :=
  ((0xba4d3a0829b6112f8812e51ba0bb2abebc1cb08eb48e556936ba50fd * 2 ^ 224 +
    0xd2e7d68af8cb32160522425b3f990812abbe635ad37a21e17551b193 : ℕ) : Gf)

/-- What the development computes about the parameter, in one run of the kernel. -/
theorem parameter_facts :
    (2 : Gf) ≠ 0 ∧ (39081 : Gf) ≠ 0 ∧ edwardsD ≠ 0 ∧ montC ≠ 0 ∧
      edwardsD * 39081 = 39082 ∧ montC ^ 2 = 156326 - 2 ∧
      edwardsD * montC ^ 2 = 156326 + 2 ∧
      ¬Pratt.powMod fieldPrime edwardsDNat 56 (fieldPrime / 2) = 1 := by
  decide +kernel

theorem two_ne_gf : (2 : Gf) ≠ 0 := parameter_facts.1

/-- The factor of the birational map is not zero. -/
theorem montC_ne : montC ≠ 0 := parameter_facts.2.2.2.1

/-- The constant of the curve as a quotient. -/
theorem edwardsD_mul : edwardsD * 39081 = 39082 := parameter_facts.2.2.2.2.1

/-- The square of that factor. -/
theorem montC_sq : montC ^ 2 = 156326 - 2 := parameter_facts.2.2.2.2.2.1

/-- The equation that makes the two curves birational. -/
theorem edwardsD_mul_montC_sq : edwardsD * montC ^ 2 = 156326 + 2 :=
  parameter_facts.2.2.2.2.2.2.1

/-- The constant the code computes. -/
theorem edwardsD_eq : edwardsD = 39082 / 39081 :=
  (eq_div_iff parameter_facts.2.1).mpr edwardsD_mul

/-- The constant is not a square, so that the addition is complete. -/
theorem edwardsD_not_isSquare : ¬IsSquare edwardsD := by
  obtain ⟨-, -, hne, -, -, -, -, hpow⟩ := parameter_facts
  have hlt : fieldPrime / 2 < 256 ^ 56 := (Nat.div_le_self _ _).trans_lt fieldPrime_lt
  rwa [ZMod.euler_criterion fieldPrime hne, edwardsD,
    Pratt.cast_pow_eq_one_iff fieldPrime_prime.one_lt, ← Pratt.powMod_eq _ _ hlt]

/-- Curve448 as the Montgomery form of the curve. -/
instance : MontgomeryForm edwardsD where
  two_ne := two_ne_gf
  not_isSquare := edwardsD_not_isSquare
  A := 156326
  c := montC
  c_ne := montC_ne
  c_sq := montC_sq
  d_mul := edwardsD_mul_montC_sq

/-! ## The base point -/

/-- The `v` of the base point of Curve448 whose image has an even `x`. -/
def baseV : Gf :=
  ((0x82dca2ed6a0a4e0993675491a7cd90313451a2cb0aaaba2f9f08a23c * 2 ^ 224 +
    0x720c091247fd81dcb9bcf2deeced3b4eaf9885089028ddc2ba84a4e5 : ℕ) : Gf)

/-- The `x` of the base point. -/
def baseX : Gf :=
  ((0x79a70b2b70400553ae7c9df416c792c61128751ac92969240c25a07d * 2 ^ 224 +
    0x728bdc93e21f7787ed6972249de732f38496cd11698713093e9c04fc : ℕ) : Gf)

/-- The `y` of the base point. -/
def baseY : Gf :=
  ((0x7fffffffffffffffffffffffffffffffffffffffffffffffffffffff * 2 ^ 224 +
    0x80000000000000000000000000000000000000000000000000000001 : ℕ) : Gf)

/-- What the development computes about the base point, in one run of the kernel. -/
theorem base_facts :
    baseV ^ 2 = (5 : Gf) ^ 3 + 156326 * 5 ^ 2 + 5 ∧ baseV ≠ 0 ∧ (5 - 1 : Gf) ≠ 0 ∧
      montC * 5 = baseX * baseV ∧ (5 : Gf) + 1 = baseY * (5 - 1) ∧ baseX ≠ 0 ∧
      gfLobit baseX = false := by
  decide +kernel

/-- The base point of the Montgomery curve is on it. -/
theorem baseV_sq : baseV ^ 2 = (5 : Gf) ^ 3 + MontgomeryForm.A edwardsD * 5 ^ 2 + 5 :=
  base_facts.1

/-- The base point of Curve448, with `u = 5`. -/
def montBase : (Edwards.montgomery edwardsD).Point := montPoint (5 : ℕ) baseV baseV_sq

/-- The base point `B`. -/
def edBase : Edwards.Point edwardsD := toEdwards montBase

/-- The first coordinate of the base point. -/
theorem edBase_x : edBase.x = baseX := by
  obtain ⟨-, hv, -, hx, -⟩ := base_facts
  show montC * 5 / baseV = baseX
  rwa [div_eq_iff hv]

/-- The second coordinate of the base point. -/
theorem edBase_y : edBase.y = baseY := by
  obtain ⟨-, -, hfour, -, hy, -⟩ := base_facts
  show (5 + 1) / (5 - 1) = baseY
  rwa [div_eq_iff hfour]

/-- The base point is not of order two. -/
theorem edBase_x_ne : edBase.x ≠ 0 := by
  obtain ⟨-, -, -, -, -, hne, -⟩ := base_facts
  rwa [edBase_x]

/-- The base point has sign bit zero. -/
theorem evenPoint_edBase : evenPoint edBase = edBase := by
  obtain ⟨-, -, -, -, -, -, hbit⟩ := base_facts
  rw [evenPoint, edBase_x, hbit, cond_false]

/-- Whether the loop of `pt_scalarmul` ends in coordinates of the identity. The comparisons of a
coordinate with itself evaluate the coordinates round by round. -/
def endsInIdentity (base : Pt) (scalar : Bytes UInt8) (d : Gf) : ℕ → Pt → Bool
  | 0, acc => decide (acc.x = 0 ∧ acc.y = acc.z)
  | i + 1, acc =>
    let acc := ptDouble acc
    let acc := ptCondSel acc (ptAdd acc base d) (scalarBit scalar i)
    bif decide (acc = acc) then endsInIdentity base scalar d i acc else false

/-- What the check of the ladder says: the multiple is the identity. -/
theorem endsInIdentity_spec {base : Pt} {scalar : Bytes UInt8} {d : Gf} : ∀ (i : ℕ) (acc : Pt),
    endsInIdentity base scalar d i acc = true →
      (ptScalarmulLoop base scalar d i acc).x = 0 ∧
        (ptScalarmulLoop base scalar d i acc).y = (ptScalarmulLoop base scalar d i acc).z
  | 0, _, h => of_decide_eq_true h
  | i + 1, acc, h => by
    unfold endsInIdentity at h
    dsimp only at h
    rw [decide_eq_true rfl, cond_true] at h
    exact endsInIdentity_spec i _ h

/-- Multiplying the base point by the group order gives the identity. -/
theorem groupOrder_nsmul_edBase : groupOrder • edBase = 0 := by
  have hbase : Represents ⟨baseX, baseY, 1, baseX * baseY⟩ edBase := by
    rw [← edBase_x, ← edBase_y]
    exact represents_affine edBase
  have hmul := hbase.scalarmul (LittleEndian.length_ofNat 56 groupOrder)
  rw [LittleEndian.toNat_ofNat groupOrder_lt] at hmul
  have hrun : endsInIdentity ⟨baseX, baseY, 1, baseX * baseY⟩ (LittleEndian.ofNat 56 groupOrder)
      edwardsD 448 ptIdentity = true := by
    decide +kernel
  obtain ⟨hx₀, hyz⟩ := endsInIdentity_spec _ _ hrun
  obtain ⟨hz, hx, hy, -⟩ := hmul
  apply Edwards.Point.ext
  · exact (mul_eq_zero.mp (hx.symm.trans hx₀)).resolve_right hz
  · exact mul_right_cancel₀ hz ((hy.symm.trans hyz).trans (one_mul _).symm)

/-- The base point has the order of the group. -/
theorem addOrderOf_edBase : addOrderOf edBase = groupOrder := by
  apply addOrderOf_eq_prime groupOrder_nsmul_edBase
  intro h
  exact edBase_x_ne (congrArg Edwards.Point.x h)

/-- A multiple of the base point is the identity exactly for the multiples of the order. -/
theorem nsmul_edBase_eq_zero_iff {n : ℕ} : n • edBase = 0 ↔ groupOrder ∣ n := by
  rw [← addOrderOf_edBase, addOrderOf_dvd_iff_nsmul_eq_zero]

/-- A multiple of the base point depends on the scalar modulo the group order only. -/
theorem cast_val_nsmul (n : ℕ) : (n : DecafScalar).val • edBase = n • edBase := by
  rw [ZMod.val_natCast, ← addOrderOf_edBase, mod_addOrderOf_nsmul]

/-- A point on the axis `x = 0` is its own negative. -/
theorem add_self_of_x_eq_zero {P : Edwards.Point edwardsD} (hx : P.x = 0) : P + P = 0 := by
  have hneg : -P = P := Edwards.Point.ext (by simp [hx]) rfl
  calc P + P = -P + P := by rw [hneg]
    _ = 0 := neg_add_cancel P

/-- Multiples of the base point other than the identity are off the axis `x = 0`. -/
theorem nsmul_edBase_x_ne {n : ℕ} (hn : ¬groupOrder ∣ n) : (n • edBase).x ≠ 0 := by
  intro hx
  have hsum := add_self_of_x_eq_zero hx
  rw [← add_nsmul, ← two_mul, nsmul_edBase_eq_zero_iff] at hsum
  rcases groupOrder_prime.dvd_mul.mp hsum with h | h
  · exact absurd (Nat.le_of_dvd (by decide) h) (Nat.not_le.2 two_lt_groupOrder)
  · exact hn h

section Decaf

variable [Libdecaf]

/-- The constant in the code is that of the curve. -/
theorem curveD_eq : curveD = edwardsD := by
  rw [curveD, gfInvert_eq parameter_facts.2.1, edwardsD_eq, div_eq_mul_inv]

/-- `base_point` is the base point. -/
theorem basePoint_represents : Represents (basePoint edwardsD) edBase := by
  have hy : ((5 : Gf) + 1) * gfInvert (5 - 1) = edBase.y := by
    rw [gfInvert_eq base_facts.2.2.1, ← div_eq_mul_inv]
    rfl
  have hspec := (ptFromY_spec edBase edBase_x_ne false).2
  rw [evenPoint_edBase] at hspec
  unfold basePoint
  dsimp only
  rwa [hy]

end Decaf

end Geryon
