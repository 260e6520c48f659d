import Geryon.Krmldsa.Signing
import Geryon.Lib.Packing

/-!
# The promises of the provider can be kept

A provider of ML-DSA made from the definitions of FIPS 204: bit packing, hint packing, and the ring
itself in place of the transform. The hash and the samplers are whatever has their ranges; with
samplers of constants (`constNative`) the numbers of an attempt can be followed, and the first one
is accepted.
-/

namespace Geryon

/-! ## Packers -/

/-- `SimpleBitPack` and `BitPack`: the codes of the coefficients, `c` bits each. -/
def bitPacker (c : ℕ) (hc : 0 < c) (InRange : ℤ → Prop) (enc dec : ℤ → ℤ)
    (henc : ∀ x, InRange x → 0 ≤ enc x ∧ enc x < 2 ^ c ∧ dec (enc x) = x) :
    PolyPacker (32 * c) InRange where
  pack a := Packing.packDigits (2 ^ c) (32 * c) fun i => (enc (a i)).toNat
  unpack b := fun i => dec (Packing.digit (2 ^ c) (LittleEndian.toNat b) i)
  length_pack a := Packing.length_packDigits _ _ _
  unpack_pack {a} ha := by
    funext i
    have hsize : (2 ^ c) ^ 256 ≤ 256 ^ (32 * c) := by
      have h8 : (256 : ℕ) = 2 ^ 8 := rfl
      rw [← Nat.pow_mul]
      nth_rewrite 2 [h8]
      rw [← Nat.pow_mul]
      exact Nat.pow_le_pow_right (by decide) (by omega)
    have hlt : ∀ i, (enc (a i)).toNat < 2 ^ c := by
      intro i
      obtain ⟨h0, h1, -⟩ := henc (a i) (ha i)
      zify
      rwa [Int.toNat_of_nonneg h0]
    obtain ⟨h0, -, hdec⟩ := henc (a i) (ha i)
    rw [Packing.digit_packDigits (Nat.one_lt_two_pow hc.ne') hlt hsize, Int.toNat_of_nonneg h0,
      hdec]

/-! ## Hints -/

/-- The indices of the hint bits of a row. -/
def hintRow {p : MldsaSet} (h : MldHint p) (r : Fin p.k) : List ℕ :=
  ((List.finRange 256).filter fun i => h r i).map Fin.val

/-- `HintBitPack`. -/
def hintBitPackRef {p : MldsaSet} (h : MldHint p) : Bytes UInt8 :=
  (Packing.packIndices p.omega (List.ofFn (hintRow h))).map UInt8.ofNat

/-- `HintBitUnpack`. -/
def hintBitUnpackRef {p : MldsaSet} (b : Bytes UInt8) : Option (MldHint p) :=
  (Packing.unpackIndices p.omega (b.map UInt8.toNat)).map fun rs r i =>
    decide (i.val ∈ rs.getD r.val [])

section Hints

variable {p : MldsaSet} (h : MldHint p)

/-- An index is listed exactly if its bit is set. -/
theorem mem_hintRow (r : Fin p.k) (i : Fin 256) : i.val ∈ hintRow h r ↔ h r i = true := by
  unfold hintRow
  rw [List.mem_map]
  constructor
  · rintro ⟨j, hj, hval⟩
    rw [← Fin.ext hval]
    exact (List.mem_filter.mp hj).2
  · exact fun hi => ⟨i, List.mem_filter.mpr ⟨List.mem_finRange i, hi⟩, rfl⟩

/-- The indices of a row increase. -/
theorem hintRow_increasing (r : Fin p.k) : (hintRow h r).Pairwise (· < ·) := by
  unfold hintRow
  rw [List.pairwise_map]
  exact (List.pairwise_lt_finRange 256).filter _

/-- A row lists as many indices as it has bits. -/
theorem length_hintRow (r : Fin p.k) :
    (hintRow h r).length = (Finset.univ.filter fun i => h r i = true).card := by
  unfold hintRow
  have hdec : (fun i => h r i) = fun i => decide (h r i = true) := by
    funext i
    exact Bool.decide_eq_true.symm
  rw [List.length_map, hdec]
  rfl

/-- All rows together list as many as the hint has bits. -/
theorem length_hintRows : (List.ofFn (hintRow h)).flatten.length = hintWeight h := by
  rw [List.length_flatten, List.map_ofFn, List.sum_ofFn]
  exact Finset.sum_congr rfl fun r _ => length_hintRow h r

/-- A packed hint has its size. -/
theorem length_hintBitPackRef : (hintBitPackRef h).length = p.polyvechPackedBytes := by
  unfold hintBitPackRef
  rw [List.length_map, Packing.length_packIndices, List.length_ofFn]
  rfl

/-- The numbers of a packed hint are bytes. -/
theorem packIndices_lt (hw : hintWeight h ≤ p.omega) :
    ∀ x ∈ Packing.packIndices p.omega (List.ofFn (hintRow h)), x < 256 := by
  intro x hx
  rcases List.mem_append.mp hx with hidx | hend
  · rcases List.mem_append.mp (List.mem_of_mem_take hidx) with hrow | hpad
    · obtain ⟨row, hmem, hx⟩ := List.mem_flatten.mp hrow
      obtain ⟨r, rfl⟩ := List.mem_ofFn.mp hmem
      obtain ⟨i, -, rfl⟩ := List.mem_map.mp hx
      exact i.isLt
    · rw [List.eq_of_mem_replicate hpad]
      decide
  · have hle := Packing.ends_le (m := p.omega) (s := 0)
      (by rw [length_hintRows, Nat.zero_add]; exact hw) x hend
    have hω : p.omega < 256 := by cases p <;> decide
    omega

/-- A hint with at most `omega` bits is unpacked as it was packed. -/
theorem hintBitUnpackRef_hintBitPackRef (hw : hintWeight h ≤ p.omega) :
    hintBitUnpackRef (hintBitPackRef h) = some h := by
  have hbytes : (hintBitPackRef h).map UInt8.toNat =
      Packing.packIndices p.omega (List.ofFn (hintRow h)) := by
    unfold hintBitPackRef
    rw [List.map_map]
    refine (List.map_congr_left fun x hx => ?_).trans (List.map_id _)
    exact UInt8.toNat_ofNat_of_lt' (packIndices_lt h hw x hx)
  have hinc : ∀ row ∈ List.ofFn (hintRow h), row.Pairwise (· < ·) := by
    intro row hrow
    obtain ⟨r, rfl⟩ := List.mem_ofFn.mp hrow
    exact hintRow_increasing h r
  unfold hintBitUnpackRef
  rw [hbytes, Packing.unpackIndices_packIndices hinc ((length_hintRows h).trans_le hw),
    Option.map_some]
  congr 1
  funext r i
  have hget : (List.ofFn (hintRow h)).getD r.val [] = hintRow h r := by
    rw [List.getD_eq_getElem _ _ (by rw [List.length_ofFn]; exact r.isLt), List.getElem_ofFn]
  rw [hget]
  cases hi : h r i with
  | true => exact decide_eq_true ((mem_hintRow h r i).mpr hi)
  | false => exact decide_eq_false fun hmem =>
      Bool.false_ne_true (hi.symm.trans ((mem_hintRow h r i).mp hmem))

end Hints

/-! ## The provider -/

/-- A hash and samplers with their ranges. -/
structure MldsaSamplers (p : MldsaSet) where
  shake256 : ℕ → Bytes UInt8 → Bytes UInt8
  length_shake256 : ∀ n b, (shake256 n b).length = n
  matrixExpand : Bytes UInt8 → Fin p.k → Fin p.l → MldsaRq
  uniformEta : Bytes UInt8 → ℕ → MldPoly
  uniformEta_range : ∀ seed nonce i, EtaRange p (uniformEta seed nonce i)
  yvecInit : Bytes UInt8 → ℕ → Fin p.l → MldPoly
  yvecInit_range : ∀ seed nonce j i, ZRange p (yvecInit seed nonce j i)
  polyChallenge : Bytes UInt8 → MldPoly
  polyChallenge_signs : ∀ c i, polyChallenge c i = 0 ∨ polyChallenge c i = 1 ∨
    polyChallenge c i = -1
  polyChallenge_weight : ∀ c, (Finset.univ.filter fun i => polyChallenge c i ≠ 0).card = p.tau

/-- The residues of an element stand for it. -/
theorem toRq_residues (x : MldsaRq) : toRq (residues x) = x := by
  have hcoeffs : (fun i => ((residues x i : ℤ) : ZMod mldsaQ)) = Negacyclic.coeffs x := by
    funext i
    rw [residues, Int.cast_natCast, ZMod.natCast_zmod_val]
  rw [toRq, hcoeffs]
  exact Negacyclic.coeffs.symm_apply_apply x

/-- Residues are below `q`. -/
theorem residues_lt (x : MldsaRq) (i : Fin 256) : |residues x i| < (mldsaQ : ℤ) := by
  have hlt := ZMod.val_lt (Negacyclic.coeffs x i)
  rw [residues, Nat.abs_cast]
  exact_mod_cast hlt

/-- `2^-32`, by which a Montgomery product is scaled. -/
noncomputable def montInv : MldsaRq :=
  algebraMap (ZMod mldsaQ) MldsaRq ((2 ^ 32 : ℕ) : ZMod mldsaQ)⁻¹

/-- `2^32` is invertible modulo `q`. -/
theorem two_pow_mul_montInv : 2 ^ 32 * montInv = 1 := by
  have hcop : Nat.Coprime (2 ^ 32) mldsaQ := by decide +kernel
  have hinv := ZMod.coe_mul_inv_eq_one (2 ^ 32) hcop
  have hmap := congrArg (algebraMap (ZMod mldsaQ) MldsaRq) hinv
  rw [map_mul, map_natCast, map_one] at hmap
  exact_mod_cast hmap

/-- `mld_reduce32`. -/
def reduce32Ref (a : ℤ) : ℤ := a - (a + 2 ^ 22) / 2 ^ 23 * mldsaQ

/-- The reduction keeps the residue. -/
theorem reduce32Ref_cast (a : ℤ) : (reduce32Ref a : ZMod mldsaQ) = a := by
  unfold reduce32Ref
  rw [Int.cast_sub, Int.cast_mul, Int.cast_natCast, ZMod.natCast_self, mul_zero, sub_zero]

/-- And it is bounded on the range of `mld_reduce32`. -/
theorem reduce32Ref_le {a : ℤ} (hlo : -2 ^ 31 ≤ a) (hhi : a ≤ 2 ^ 31 - 2 ^ 22 - 1) :
    |reduce32Ref a| ≤ 6283009 := by
  have hq : (mldsaQ : ℤ) = 8380417 := rfl
  unfold reduce32Ref
  rw [hq, abs_le]
  omega

/-- `SimpleBitPack` for coefficients in `[0, 2^c)`. -/
def simpleBitPacker (c : ℕ) (hc : 0 < c) (InRange : ℤ → Prop)
    (h : ∀ x, InRange x → 0 ≤ x ∧ x < 2 ^ c) : PolyPacker (32 * c) InRange :=
  bitPacker c hc InRange id id fun x hx => ⟨(h x hx).1, (h x hx).2, rfl⟩

/-- `BitPack` for coefficients in `(b - 2^c, b]`. -/
def offsetBitPacker (c : ℕ) (hc : 0 < c) (b : ℤ) (InRange : ℤ → Prop)
    (h : ∀ x, InRange x → x ≤ b ∧ b - x < 2 ^ c) : PolyPacker (32 * c) InRange :=
  bitPacker c hc InRange (b - ·) (b - ·) fun x hx =>
    ⟨sub_nonneg.mpr (h x hx).1, (h x hx).2, sub_sub_cancel b x⟩

/-- The range of responses as an offset of 18 bits. -/
theorem zRange_44 (x : ℤ) (hx : ZRange .mldsa44 x) : x ≤ 131072 ∧ 131072 - x < 2 ^ 18 := by
  have h1 : -131072 < x := hx.1
  have h2 : x ≤ 131072 := hx.2
  omega

/-- The range of responses as an offset of 20 bits. -/
theorem zRange_87 (x : ℤ) (hx : ZRange .mldsa87 x) : x ≤ 524288 ∧ 524288 - x < 2 ^ 20 := by
  have h1 : -524288 < x := hx.1
  have h2 : x ≤ 524288 := hx.2
  omega

theorem zWidth_44 : 0 < 18 := by decide

theorem zWidth_87 : 0 < 20 := by decide

/-- The packer of responses: 18 or 20 bits. -/
def zPacker : (p : MldsaSet) → PolyPacker p.polyzPackedBytes (ZRange p)
  | .mldsa44 => offsetBitPacker 18 zWidth_44 131072 _ zRange_44
  | .mldsa87 => offsetBitPacker 20 zWidth_87 524288 _ zRange_87

/-- The width of the packed high parts: 6 or 4 bits. -/
def w1Bits : MldsaSet → ℕ
  | .mldsa44 => 6
  | .mldsa87 => 4

/-- The provider. -/
@[reducible] noncomputable def referenceNative (p : MldsaSet) (S : MldsaSamplers p) :
    MldsaNative p where
  shake256 := S.shake256
  length_shake256 := S.length_shake256
  Hat := MldsaRq
  ntt := RingEquiv.refl _
  polyNtt := toRq
  polyNtt_eq _ := rfl
  pointwiseMontgomery a b := montInv * (a * b)
  pointwiseMontgomery_eq a b := by rw [← mul_assoc, two_pow_mul_montInv, one_mul]
  rowPointwiseMontgomery u v := montInv * ∑ j, u j * v j
  rowPointwiseMontgomery_eq u v := by rw [← mul_assoc, two_pow_mul_montInv, one_mul]
  invnttTomont x := residues (2 ^ 32 * x)
  toRq_invnttTomont x := toRq_residues _
  invnttTomont_lt x i := residues_lt _ i
  matrixYvec mat y r := residues (∑ j, mat r j * toRq (y j))
  toRq_matrixYvec _ _ _ _ := toRq_residues _
  matrixYvec_lt _ _ _ i := residues_lt _ i
  polyAdd a b i := a i + b i
  polyAdd_eq _ := rfl
  polySub a b i := a i - b i
  polySub_eq _ _ := rfl
  polyShiftl a i := a i * 2 ^ mldsaD
  polyShiftl_eq _ := rfl
  polyCaddq a i := if a i < 0 then a i + mldsaQ else a i
  polyCaddq_eq _ := rfl
  polyChknorm a b := ∃ i, b ≤ |a i|
  polyChknorm_iff _ _ _ := decide_eq_true_iff
  polyPower2round a :=
    (fun i => (Rounding.power2Round mldsaQ mldsaD (a i)).1,
      fun i => (Rounding.power2Round mldsaQ mldsaD (a i)).2)
  polyPower2round_eq _ := rfl
  polyveckDecompose w :=
    (fun r i => (Rounding.decompose mldsaQ p.gamma2 (w r i)).1,
      fun r i => (Rounding.decompose mldsaQ p.gamma2 (w r i)).2)
  polyveckDecompose_eq _ := rfl
  reduce32 := reduce32Ref
  reduce32_cast _ _ := reduce32Ref_cast _
  reduce32_le hlo hhi := reduce32Ref_le hlo hhi
  matrixExpand := S.matrixExpand
  uniformEta := S.uniformEta
  uniformEta_range := S.uniformEta_range
  yvecInit := S.yvecInit
  yvecInit_range := S.yvecInit_range
  polyChallenge := S.polyChallenge
  polyChallenge_signs := S.polyChallenge_signs
  polyChallenge_weight := S.polyChallenge_weight
  t1 := simpleBitPacker 10 (by decide) _ fun x hx => hx
  t0 := offsetBitPacker 13 (by decide) 4096 _ fun x hx => by
    unfold T0Range at hx
    omega
  eta := offsetBitPacker 3 (by decide) p.eta _ fun x hx => by
    have hη : p.eta = 2 := by cases p <;> rfl
    unfold EtaRange at hx
    rw [hη, abs_le] at hx
    omega
  z := zPacker p
  w1Pack a := Packing.packDigits (2 ^ w1Bits p) p.polyw1PackedBytes fun i => (a i).toNat
  length_w1Pack _ := Packing.length_packDigits _ _ _
  hintBitPack := hintBitPackRef
  hintBitUnpack := hintBitUnpackRef
  length_hintBitPack := length_hintBitPackRef
  hintBitUnpack_hintBitPack hw := hintBitUnpackRef_hintBitPackRef _ hw
  packSigZ sig a j := sig.put (sigZOff p j) ((zPacker p).pack a)
  packSigZ_eq _ _ _ _ := rfl
  packSigH sig w0 w1 :=
    if p.omega < hintWeight (mldHint p w0 w1) then none
    else some (sig.put (sigZOff p p.l) (hintBitPackRef (mldHint p w0 w1)))
  packSigH_eq _ _ _ _ _ := rfl

/-! ## An attempt that is accepted -/

/-- A multiple of an array stands for the multiple. -/
theorem toRq_scale (n : ℤ) (a : MldPoly) : toRq (fun i => n * a i) = n * toRq a := by
  unfold toRq
  rw [← zsmul_eq_mul, ← map_zsmul]
  congr 1
  funext i
  rw [Pi.smul_apply, zsmul_eq_mul]
  exact Int.cast_mul _ _

/-- The constant polynomial `1`. -/
def onePoly : MldPoly := fun i => if i.val = 0 then 1 else 0

/-- The constant polynomial `1` is the one of the ring. -/
theorem toRq_onePoly : toRq onePoly = 1 := by
  unfold toRq
  rw [Negacyclic.ofCoeffs_eq_sum, Finset.sum_eq_single 0]
  · simp [onePoly]
  · intro i _ hi
    rw [onePoly, if_neg (Fin.val_ne_zero_iff.2 hi), Int.cast_zero, zero_smul]
  · exact fun h => absurd (Finset.mem_univ _) h

/-- Arrays in `[0, q)` are determined by the element they stand for. -/
theorem eq_of_toRq {a b : MldPoly} (ha : Reduced a) (hb : Reduced b) (h : toRq a = toRq b) :
    a = b := by
  funext i
  have hres := residues_toRq a i
  rw [h, residues_toRq, Int.emod_eq_of_lt (ha i).1 (ha i).2,
    Int.emod_eq_of_lt (hb i).1 (hb i).2] at hres
  exact hres.symm

/-- A provider whose products come out in `[0, q)` and whose reduction leaves small integers. -/
structure CanonicalNative (p : MldsaSet) [MldsaNative p] : Prop where
  invntt : ∀ x, Reduced (MldsaNative.invnttTomont (p := p) x)
  matrix : ∀ mat y r, Reduced (MldsaNative.matrixYvec (p := p) mat y r)
  reduce : ∀ {x : ℤ}, |x| < 2 ^ 22 → MldsaNative.reduce32 p x = x

/-- The coefficients of the mask. -/
def constMask : ℤ := 100000

/-- The high and the low parts of `w` for this mask and a matrix of ones. -/
def constParts (p : MldsaSet) : ℤ × ℤ := Rounding.decompose mldsaQ p.gamma2 (p.l * constMask)

/-- With the secret `2` the bounds are kept, for either coefficient `c` of the challenge. -/
theorem constMask_fits (p : MldsaSet) {c : ℤ} (hc : c = 0 ∨ c = 1) :
    |2 * c + constMask| < p.gamma1 - krBeta p ∧ |(constParts p).2 - 2 * c| < p.gamma2 - krBeta p ∧
      |2 * (p.l + 1) * c| < p.gamma2 ∧
      Rounding.makeHint mldsaQ p.gamma2 (-((constParts p).2 - 2 * c + 2 * (p.l + 1) * c))
        (2 * p.gamma2 * (constParts p).1 + ((constParts p).2 - 2 * c + 2 * (p.l + 1) * c)) =
          false := by
  obtain rfl | rfl := hc <;> cases p <;> decide

section Constants

open MldsaNative

variable {p : MldsaSet} [MldsaNative p]

/-- A product is the array in `[0, q)` of its element. -/
theorem CanonicalNative.polyProduct_eq (hC : CanonicalNative p) {u v : Hat p} {x : MldPoly}
    (hx : Reduced x) (h : ntt.symm (u * v) = toRq x) : polyProduct p u v = x :=
  eq_of_toRq (hC.invntt _) hx (by rw [toRq_polyProduct, h])

/-- Small arrays are left by the reduction. -/
theorem CanonicalNative.polyReduce_eq (hC : CanonicalNative p) {x : MldPoly}
    (hx : ∀ i, |x i| < 2 ^ 22) : polyReduce p x = x :=
  funext fun i => hC.reduce (hx i)

/-- An attempt with the constant mask and the secret and the key of constants. -/
structure Attempt.Constant (a : Attempt p) : Prop where
  canonical : CanonicalNative p
  mask : ∀ j, a.y j = fun _ => constMask
  mat : ∀ r j, a.mat r j = 1
  s1hat : ∀ j, a.rsk.s1hat j = ntt (toRq fun i => 2 * onePoly i)
  s2hat : ∀ r, a.rsk.s2hat r = ntt (toRq fun i => 2 * onePoly i)
  t0hat : ∀ r, a.rsk.t0hat r = ntt (toRq fun i => 2 * (p.l + 1) * onePoly i)
  bits : ∀ c i, polyChallenge p c i = 0 ∨ polyChallenge p c i = 1

namespace Attempt.Constant

variable {a : Attempt p} (h : a.Constant)

include h

/-- The challenge times a constant. -/
theorem product_eq {n : ℤ} (h0 : 0 ≤ n) (hn : n < mldsaQ) {u : Hat p}
    (hu : u = ntt (toRq fun i => n * onePoly i)) :
    polyProduct p u a.cp = fun i => n * polyChallenge p a.c i := by
  refine h.canonical.polyProduct_eq (fun i => ?_) ?_
  · obtain hc | hc := h.bits a.c i
    · rw [hc, mul_zero]
      exact ⟨le_rfl, by decide⟩
    · rw [hc, mul_one]
      exact ⟨h0, hn⟩
  · rw [hu, a.cp_eq, ← map_mul, RingEquiv.symm_apply_apply, toRq_scale, toRq_onePoly, mul_one,
      toRq_scale]
    rfl

/-- The rows of `w` are constant. -/
theorem w_eq (r : Fin p.k) : a.w r = fun _ => p.l * constMask := by
  have hl : (0 : ℤ) ≤ p.l * constMask ∧ p.l * constMask < mldsaQ := by cases p <;> decide
  have hred : Reduced fun _ => p.l * constMask := fun _ => hl
  have hrow : matrixYvec a.mat a.y r = fun _ => p.l * constMask := by
    refine eq_of_toRq (h.canonical.matrix _ _ r) hred ?_
    rw [toRq_matrixYvec _ fun j i => (a.y_range j i).lt_q]
    simp only [h.mask, h.mat, one_mul, Finset.sum_const, Finset.card_univ, Fintype.card_fin,
      nsmul_eq_mul, map_mul, map_natCast, RingEquiv.symm_apply_apply]
    rw [toRq_scale, Int.cast_natCast]
  rw [w, hrow, polyCaddq_eq fun i => by rw [abs_of_nonneg (hred i).1]; exact (hred i).2]
  funext i
  exact if_neg (not_lt.mpr (hred i).1)

/-- The parts of `w` are those of the one coefficient it has. -/
theorem parts_eq (r : Fin p.k) :
    a.w1 r = (fun _ => (constParts p).1) ∧ a.w0 r = fun _ => (constParts p).2 := by
  rw [w1, w0, polyveckDecompose_eq a.w_reduced]
  dsimp only
  rw [h.w_eq]
  exact ⟨rfl, rfl⟩

/-- The response: twice the challenge and the mask. -/
theorem response_eq (j : Fin p.l) :
    krResponse a.rsk a.y a.cp j = fun i => 2 * polyChallenge p a.c i + constMask := by
  have hprod := h.product_eq (n := 2) (by decide) (by decide) (h.s1hat j)
  have hγ := gamma_bounds p
  unfold krResponse
  dsimp only
  rw [polyAdd_eq (addable_response a.rsk a.cp a.y_range j), hprod, h.mask]
  refine h.canonical.polyReduce_eq fun i => lt_trans (constMask_fits p (h.bits a.c i)).1 ?_
  unfold krBeta
  omega

/-- The low parts without the secret. -/
theorem low_eq (r : Fin p.k) :
    krLow a.rsk a.cp (a.w0 r) r = fun i => (constParts p).2 - 2 * polyChallenge p a.c i := by
  have hprod := h.product_eq (n := 2) (by decide) (by decide) (h.s2hat r)
  have hγ := gamma_bounds p
  have hw : ∀ i, |a.w0 r i| < (mldsaQ : ℤ) := fun i =>
    lt_of_le_of_lt ((a.parts_bounds r i).2.trans hγ.2.1) (by decide)
  rw [krLow, polySub_eq hw (polyProduct_lt _ _), hprod, (h.parts_eq r).2]
  refine h.canonical.polyReduce_eq fun i => lt_trans (constMask_fits p (h.bits a.c i)).2.1 ?_
  unfold krBeta
  omega

/-- The challenge times the low rows of the key. -/
theorem ct0_eq (r : Fin p.k) :
    krCt0 a.rsk a.cp r = fun i => 2 * (p.l + 1) * polyChallenge p a.c i := by
  have hn : (0 : ℤ) ≤ 2 * (p.l + 1) ∧ 2 * ((p.l : ℤ) + 1) < mldsaQ := by cases p <;> decide
  have hγ := (gamma_bounds p).2.1
  rw [krCt0, h.product_eq hn.1 hn.2 (h.t0hat r)]
  refine h.canonical.polyReduce_eq fun i => lt_trans (constMask_fits p (h.bits a.c i)).2.2.1 ?_
  omega

/-- Every row is within its bounds. -/
theorem lowOk (r : Fin p.k) : LowOk a.rsk a.cp (a.w0 r) r := by
  have hγ := gamma_bounds p
  have hw : ∀ i, |a.w0 r i| ≤ p.gamma2 := fun i => (a.parts_bounds r i).2
  constructor
  · rw [polyChknorm_eq_false (krLow_le a.rsk a.cp hw r) (by omega) (by unfold krBeta; omega),
      h.low_eq]
    exact fun i => (constMask_fits p (h.bits a.c i)).2.1
  · rw [polyChknorm_eq_false (krCt0_le a.rsk a.cp r) (by unfold krBeta at hγ; omega) (by omega),
      h.ct0_eq]
    exact fun i => (constMask_fits p (h.bits a.c i)).2.2.1

/-- No low part overflows. -/
theorem hint_eq (r : Fin p.k) (i : Fin 256) : a.hint r i = false := by
  have hw : ∀ i, |a.w0 r i| ≤ p.gamma2 := fun i => (a.parts_bounds r i).2
  have hrow : a.low r i =
      (constParts p).2 - 2 * polyChallenge p a.c i + 2 * (p.l + 1) * polyChallenge p a.c i := by
    rw [low, krLowRow, polyAdd_eq (addable_low a.rsk a.cp hw r), h.low_eq, h.ct0_eq]
  rw [hint, mldHint, hrow, (h.parts_eq r).1]
  exact (constMask_fits p (h.bits a.c i)).2.2.2

/-- So the attempt is accepted, without a hint bit. -/
theorem accepted : a.Accepted := by
  have hγ := gamma_bounds p
  refine ⟨fun j => ?_, h.lowOk, ?_⟩
  · have hle : ∀ i, |krResponse a.rsk a.y a.cp j i| ≤ 6283009 :=
      polyReduce_le (reducible32_polyAdd (addable_response a.rsk a.cp a.y_range j))
    rw [ResponseOk, polyChknorm_eq_false hle (by omega) (by unfold krBeta; omega), h.response_eq]
    exact fun i => (constMask_fits p (h.bits a.c i)).1
  · unfold hintWeight
    simp only [h.hint_eq, Bool.false_eq_true, Finset.filter_false, Finset.card_empty,
      Finset.sum_const_zero, Nat.zero_le]

end Attempt.Constant

end Constants

/-- Samplers of constants: a matrix of ones, the secret `1` and a mask of equal coefficients. -/
noncomputable def constSamplers (p : MldsaSet) : MldsaSamplers p where
  shake256 n _ := zeros n
  length_shake256 n _ := length_zeros n
  matrixExpand _ _ _ := 1
  uniformEta _ _ := onePoly
  uniformEta_range _ _ i := by
    unfold EtaRange onePoly
    split <;> cases p <;> decide
  yvecInit _ _ _ _ := constMask
  yvecInit_range _ _ _ _ := by
    cases p <;> exact ⟨by decide, by decide⟩
  polyChallenge _ i := if i.val < p.tau then 1 else 0
  polyChallenge_signs _ i := by
    split
    · exact .inr (.inl rfl)
    · exact .inl rfl
  polyChallenge_weight _ := by cases p <;> decide +kernel

/-- The provider over the samplers of constants. -/
@[reducible] noncomputable def constNative (p : MldsaSet) : MldsaNative p :=
  referenceNative p (constSamplers p)

/-- There is a provider for either parameter set. -/
theorem mldsaNative_nonempty (p : MldsaSet) : Nonempty (MldsaNative p) := ⟨constNative p⟩

/-- Residues are in `[0, q)`. -/
theorem reduced_residues (x : MldsaRq) : Reduced (residues x) := by
  intro i
  have hlt := ZMod.val_lt (Negacyclic.coeffs x i)
  exact ⟨Int.natCast_nonneg _, Int.ofNat_lt.mpr hlt⟩

/-- The reference provider computes in `[0, q)`. -/
theorem canonical_constNative (p : MldsaSet) :
    letI := constNative p
    CanonicalNative p := by
  let := constNative p
  refine ⟨fun _ => reduced_residues _, fun _ _ _ => reduced_residues _, fun {x} hx => ?_⟩
  have hdiv : (x + 2 ^ 22) / 2 ^ 23 = 0 := by
    rw [abs_lt] at hx
    omega
  change x - (x + 2 ^ 22) / 2 ^ 23 * mldsaQ = x
  rw [hdiv, zero_mul, sub_zero]

/-- The key under the samplers of constants is the constant `2 (l + 1)`. -/
theorem constNative_t {p : MldsaSet} {seed rho : Bytes UInt8} {t : Fin p.k → MldPoly} :
    letI := constNative p
    ∀ {rsk : KrRsk p} {vkr : Bytes UInt8}, KeyPair rsk vkr (krSumSecret p seed rho).1
      (krSumSecret p seed rho).2 t → ∀ r, t r = fun i => 2 * (p.l + 1) * onePoly i := by
  let := constNative p
  intro rsk vkr hk r
  have hl : (0 : ℤ) ≤ 2 * (p.l + 1) ∧ 2 * ((p.l : ℤ) + 1) < mldsaQ := by cases p <;> decide
  have hred : Reduced fun i => 2 * (p.l + 1) * onePoly i := by
    intro i
    dsimp only [onePoly]
    split
    · rwa [mul_one]
    · rw [mul_zero]
      exact ⟨le_rfl, by decide⟩
  have hsum : toRq (fun i => onePoly i + onePoly i) = 2 := by
    rw [toRq_add, toRq_onePoly]
    exact one_add_one_eq_two
  refine eq_of_toRq (hk.t_reduced r) hred ?_
  rw [hk.t_eq r, toRq_scale, toRq_onePoly]
  have hrow : ∀ j : Fin p.l, matA p rsk.rho r j * toRq ((krSumSecret p seed rho).1 j) = 2 :=
    fun j => (one_mul _).trans hsum
  rw [Finset.sum_congr rfl fun j _ => hrow j, Finset.sum_const, Finset.card_univ,
    Fintype.card_fin]
  refine (congrArg _ hsum).trans ?_
  push_cast
  rw [nsmul_eq_mul]
  ring

/-- Every attempt under a rerandomised key is one of constants. -/
theorem constNative_attempt {p : MldsaSet} {seed rho : Bytes UInt8} {t : Fin p.k → MldPoly} :
    letI := constNative p
    ∀ {rsk : KrRsk p} {vkr : Bytes UInt8}, KeyPair rsk vkr (krSumSecret p seed rho).1
      (krSumSecret p seed rho).2 t → ∀ mu rhoprime nonce, Attempt.Constant
        ⟨mu, rhoprime, nonce, MldsaNative.matrixExpand rsk.rho, rsk⟩ := by
  let := constNative p
  intro rsk vkr hk mu rhoprime nonce
  have hsum : (fun i => onePoly i + onePoly i) = fun i => 2 * onePoly i :=
    funext fun i => (two_mul _).symm
  have hround : ∀ r, (MldsaNative.polyPower2round p (t r)).2 =
      fun i => 2 * (p.l + 1) * onePoly i := by
    intro r
    rw [constNative_t hk r]
    funext i
    change (Rounding.power2Round mldsaQ mldsaD (2 * (p.l + 1) * onePoly i)).2 = _
    dsimp only [onePoly]
    split <;> cases p <;> decide
  exact
    { canonical := canonical_constNative p
      mask := fun _ => rfl
      mat := fun _ _ => rfl
      s1hat := fun j => (hk.s1hat j).trans (congrArg (fun a => MldsaNative.ntt (toRq a)) hsum)
      s2hat := fun r => (hk.s2hat r).trans (congrArg (fun a => MldsaNative.ntt (toRq a)) hsum)
      t0hat := fun r => by rw [hk.t0hat r, hround]
      bits := fun _ i => (ite_eq_or_eq (i.val < p.tau) (1 : ℤ) 0).symm }

/-- The first attempt under a rerandomised key is accepted. -/
theorem constNative_signs (p : MldsaSet) {seed rho : Bytes UInt8} {t : Fin p.k → MldPoly} :
    letI := constNative p
    ∀ {rsk : KrRsk p} {vkr : Bytes UInt8}, KeyPair rsk vkr (krSumSecret p seed rho).1
      (krSumSecret p seed rho).2 t → ∀ sig msg pre, ∃ nonce < krMaxAttempts,
        (krAttempt sig (krMu rsk msg pre) (krRhoprime rsk (krMu rsk msg pre) (zeros 32)) nonce
          (MldsaNative.matrixExpand rsk.rho) rsk).1 ≠ .error .verify := by
  let := constNative p
  intro rsk vkr hk sig msg pre
  refine ⟨0, by decide, fun hmark => ?_⟩
  have hacc := (constNative_attempt hk (krMu rsk msg pre)
    (krRhoprime rsk (krMu rsk msg pre) (zeros 32)) 0).accepted
  rcases Attempt.krAttempt_spec ⟨_, _, 0, _, rsk⟩ sig with ⟨-, sig', heq, -⟩ | ⟨hno, -⟩
  · rw [heq] at hmark
    exact nomatch hmark
  · exact hno hacc

/-- The verifier of FIPS 204, as one that decides. -/
@[reducible] noncomputable def referenceVerify (p : MldsaSet) [MldsaNative p] : LiboqsVerify p where
  verifyWithCtxStr msg sig ctx pk := by
    classical exact decide (MldsaAccepts p pk msg ctx sig)
  verifyWithCtxStr_iff _ _ _ _ := by
    classical exact decide_eq_true_iff

/-- A message signed in a context under a rerandomised key is accepted, over the samplers of
constants. -/
def ConstantKeySigns (p : MldsaSet) : Prop :=
  letI := constNative p
  letI := referenceVerify p
  ∃ vkr rsk sig, krRandvk p (krKeygenBase p [1]).1 [2] = .ok vkr ∧
    krRandsk p (krKeygenBase p [1]).2 (krKeygenBase p [1]).1 [2] = .ok rsk ∧
    gyKrSignRnd (krSigZero p) rsk [3, 4] [5] (zeros 32) = (.ok (), sig) ∧
    gyKrVerify sig vkr [3, 4] [5] = .ok ()

theorem constant_keys_sign : ConstantKeySigns .mldsa44 ∧ ConstantKeySigns .mldsa87 := by
  have hsigns : ∀ p, ConstantKeySigns p := by
    intro p
    let := constNative p
    let := referenceVerify p
    obtain ⟨vkr, rsk, hvk, hsk, -, -, -, -, -, hsign⟩ := kr_correct p [1] [2]
    obtain ⟨vkr', rsk', hvk', hsk', hk⟩ := krRandsk_keygen (p := p) [1] [2]
    obtain rfl := Except.ok.inj (hvk.symm.trans hvk')
    obtain rfl := Except.ok.inj (hsk.symm.trans hsk')
    have hmsg := hsign [3, 4] [5] (zeros 32) (krSigZero p)
    rw [if_neg (by decide)] at hmsg
    rcases hmsg with ⟨sig, hok, hver, -⟩ | ⟨-, hrej⟩
    · exact ⟨vkr, rsk, sig, hvk, hsk, hok, hver⟩
    · obtain ⟨nonce, hn, hno⟩ := constNative_signs p hk (krSigZero p) [3, 4] ([0, 1] ++ [5])
      exact absurd (hrej nonce hn _) hno
  exact ⟨hsigns .mldsa44, hsigns .mldsa87⟩

end Geryon
