import Geryon.Krmldsa.Impl

/-!
# Rerandomised key pairs

The arrays of coefficients stand for elements of the ring, and the polynomial functions compute
there what their names say as long as the arrays stay within the bounds mldsa-native asks for. From
this: the base key carries `t = A s1 + s2` without loss (`krKeygenBase_t`), and both halves of the
rerandomisation come to `A (s1 + s1') + (s2 + s2')` (`krRerandT_keygen`).
-/

namespace Geryon

open Buffer (slice rows)
open MldsaNative

/-! ## Arrays of coefficients -/

theorem mldsaQ_eq : (mldsaQ : ℤ) = 8380417 := rfl

/-- The coefficients of an array in the ring are its coefficients modulo `q`. -/
theorem residues_toRq (a : MldPoly) (i : Fin 256) : residues (toRq a) i = a i % (mldsaQ : ℤ) := by
  rw [residues, toRq, Negacyclic.coeffs_ofCoeffs, ZMod.val_intCast]

/-- Arrays that agree modulo `q` stand for one element. -/
theorem toRq_congr {a b : MldPoly} (h : ∀ i, (a i : ZMod mldsaQ) = b i) : toRq a = toRq b := by
  unfold toRq
  congr 1
  funext i
  exact h i

/-- Sums of arrays stand for sums. -/
theorem toRq_add (a b : MldPoly) : toRq (fun i => a i + b i) = toRq a + toRq b := by
  unfold toRq
  rw [← map_add]
  congr 1
  funext i
  exact Int.cast_add _ _

/-- Differences of arrays stand for differences. -/
theorem toRq_sub (a b : MldPoly) : toRq (fun i => a i - b i) = toRq a - toRq b := by
  unfold toRq
  rw [← map_sub]
  congr 1
  funext i
  exact Int.cast_sub _ _

variable {p : MldsaSet} [MldsaNative p]

/-- `mld_poly_add` adds in the ring. -/
theorem toRq_polyAdd {a b : MldPoly} (h : Addable a b) :
    toRq (polyAdd p a b) = toRq a + toRq b := by
  rw [polyAdd_eq h, toRq_add]

/-- A sum is within the bounds of the reduction. -/
theorem reducible32_polyAdd {a b : MldPoly} (h : Addable a b) : Reducible32 (polyAdd p a b) := by
  rw [polyAdd_eq h]
  exact fun i => ⟨(h i).1, (h i).2.le⟩

/-- `mld_poly_sub` subtracts in the ring. -/
theorem toRq_polySub {a b : MldPoly} (ha : ∀ i, |a i| < (mldsaQ : ℤ))
    (hb : ∀ i, |b i| < (mldsaQ : ℤ)) : toRq (polySub p a b) = toRq a - toRq b := by
  rw [polySub_eq ha hb, toRq_sub]

/-- Differences of coefficients below `q` can be reduced. -/
theorem reducible32_polySub {a b : MldPoly} (ha : ∀ i, |a i| < (mldsaQ : ℤ))
    (hb : ∀ i, |b i| < (mldsaQ : ℤ)) : Reducible32 (polySub p a b) := by
  rw [polySub_eq ha hb]
  intro i
  have ha := abs_lt.mp (ha i)
  have hb := abs_lt.mp (hb i)
  rw [mldsaQ_eq] at ha hb
  dsimp only
  omega

/-- Adding `q` to the negative coefficients does not change the element. -/
theorem toRq_polyCaddq {a : MldPoly} (h : ∀ i, |a i| < (mldsaQ : ℤ)) :
    toRq (polyCaddq p a) = toRq a := by
  rw [polyCaddq_eq h]
  apply toRq_congr
  intro i
  split
  · rw [Int.cast_add, Int.cast_natCast, ZMod.natCast_self, add_zero]
  · rfl

/-- It brings coefficients below `q` into `[0, q)`. -/
theorem reduced_polyCaddq {a : MldPoly} (h : ∀ i, |a i| < (mldsaQ : ℤ)) :
    Reduced (polyCaddq p a) := by
  rw [polyCaddq_eq h]
  intro i
  have hi := abs_lt.mp (h i)
  dsimp only
  split <;> omega

/-- A reduction does not change the element. -/
theorem toRq_polyReduce {a : MldPoly} (h : Reducible32 a) : toRq (polyReduce p a) = toRq a :=
  toRq_congr fun i => reduce32_cast (h i).1 (h i).2

/-- The bound mldsa-native gives for reduced coefficients. -/
theorem polyReduce_le {a : MldPoly} (h : Reducible32 a) (i : Fin 256) :
    |polyReduce p a i| ≤ 6283009 :=
  reduce32_le (h i).1 (h i).2

/-- Reduced coefficients are below `q`. -/
theorem polyReduce_lt {a : MldPoly} (h : Reducible32 a) (i : Fin 256) :
    |polyReduce p a i| < (mldsaQ : ℤ) :=
  lt_of_le_of_lt (polyReduce_le h i) (by decide)

/-- A product in the NTT domain is the product in the ring: the two powers of the Montgomery radix
cancel. -/
theorem toRq_polyProduct (a b : Hat p) : toRq (polyProduct p a b) = ntt.symm (a * b) := by
  unfold polyProduct
  rw [toRq_invnttTomont, pointwiseMontgomery_eq]

/-- So are the coefficients of a product. -/
theorem polyProduct_lt (a b : Hat p) (i : Fin 256) : |polyProduct p a b i| < (mldsaQ : ℤ) :=
  invnttTomont_lt _ i

/-! ## The public matrix -/

/-- An entry of the matrix `A` of a seed, as an element of the ring. -/
noncomputable def matA (p : MldsaSet) [MldsaNative p] (rho : Bytes UInt8) (r : Fin p.k)
    (j : Fin p.l) : MldsaRq :=
  ntt.symm (matrixExpand (p := p) rho r j)

theorem EtaRange.lt {x : ℤ} (h : EtaRange p x) : |x| < 5 := by
  unfold EtaRange at h
  refine lt_of_le_of_lt h ?_
  cases p <;> decide

theorem EtaRange.lt_q {x : ℤ} (h : EtaRange p x) : |x| < (mldsaQ : ℤ) :=
  lt_trans h.lt (by decide)

/-- Secrets are added without a reduction. -/
theorem addable_of_eta {a b : MldPoly} (ha : ∀ i, EtaRange p (a i))
    (hb : ∀ i, EtaRange p (b i)) : Addable a b := by
  intro i
  have hx := abs_lt.mp (ha i).lt
  have hy := abs_lt.mp (hb i).lt
  omega

/-- `kr_compute_t` computes `A s1 + s2`. -/
theorem krComputeT_spec {s1 : Fin p.l → MldPoly} {s2 : Fin p.k → MldPoly}
    (h1 : ∀ j i, EtaRange p (s1 j i)) (h2 : ∀ r i, EtaRange p (s2 r i)) (rho : Bytes UInt8)
    (r : Fin p.k) :
    toRq (krComputeT p s1 s2 rho r) = ∑ j, matA p rho r j * toRq (s1 j) + toRq (s2 r) ∧
      Reduced (krComputeT p s1 s2 rho r) := by
  have hadd : Addable (invnttTomont (rowPointwiseMontgomery (matrixExpand rho r)
      fun j => polyNtt (p := p) (s1 j))) (s2 r) := by
    intro i
    have hinv := abs_lt.mp (invnttTomont_lt (rowPointwiseMontgomery (matrixExpand rho r)
      fun j => polyNtt (p := p) (s1 j)) i)
    have hs := abs_lt.mp (h2 r i).lt
    rw [mldsaQ_eq] at hinv
    omega
  have hred := reducible32_polyAdd (p := p) hadd
  refine ⟨?_, reduced_polyCaddq (polyReduce_lt hred)⟩
  unfold krComputeT
  dsimp only
  rw [toRq_polyCaddq (polyReduce_lt hred), toRq_polyReduce hred, toRq_polyAdd hadd,
    toRq_invnttTomont, rowPointwiseMontgomery_eq, map_sum]
  congr 1
  apply Finset.sum_congr rfl
  intro j _
  rw [map_mul, polyNtt_eq fun i => (h1 j i).lt_q, RingEquiv.symm_apply_apply, matA]

/-! ## Rounding the key -/

/-- The parts of a coefficient add up to it. -/
theorem polyPower2round_sum {a : MldPoly} (h : Reduced a) (i : Fin 256) :
    (polyPower2round p a).1 i * 2 ^ mldsaD + (polyPower2round p a).2 i = a i := by
  rw [polyPower2round_eq h]
  exact (Rounding.power2Round_recompose (a i)).trans (Int.emod_eq_of_lt (h i).1 (h i).2)

/-- The parts of a reduced polynomial are in the ranges of their packers. -/
theorem polyPower2round_ranges {a : MldPoly} (h : Reduced a) (i : Fin 256) :
    T1Range ((polyPower2round p a).1 i) ∧ T0Range ((polyPower2round p a).2 i) := by
  have hsum : (polyPower2round p a).1 i * 2 ^ 13 + (polyPower2round p a).2 i = a i :=
    polyPower2round_sum h i
  have hlow : -2 ^ 13 < 2 * (polyPower2round p a).2 i ∧
      2 * (polyPower2round p a).2 i ≤ 2 ^ 13 := by
    rw [polyPower2round_eq h]
    exact Rounding.power2Round_low (a i)
  have hi := h i
  rw [mldsaQ_eq] at hi
  unfold T1Range T0Range
  omega

/-- The parts recombine: `t1 * 2^d + t0`. -/
theorem toRq_polyPower2round {a : MldPoly} (h : Reduced a) :
    toRq (fun i => (polyPower2round p a).1 i * 2 ^ mldsaD) + toRq (polyPower2round p a).2 =
      toRq a := by
  rw [← toRq_add]
  exact congrArg toRq (funext (polyPower2round_sum h))

/-! ## The base key -/

/-- Sampled secrets are short. -/
theorem krExpandS_range (seed : Bytes UInt8) :
    (∀ j i, EtaRange p ((krExpandS p seed).1 j i)) ∧ ∀ r i, EtaRange p ((krExpandS p seed).2 r i) :=
  ⟨fun _ i => uniformEta_range _ _ i, fun _ i => uniformEta_range _ _ i⟩

/-- The secret `keygen_base` samples. -/
def krBaseSecret (p : MldsaSet) [MldsaNative p] (seed : Bytes UInt8) :
    (Fin p.l → MldPoly) × (Fin p.k → MldPoly) :=
  krExpandS p (krSeedbuf p seed)

/-- So is the secret of the base key. -/
theorem krBaseSecret_range (seed : Bytes UInt8) :
    (∀ j i, EtaRange p ((krBaseSecret p seed).1 j i)) ∧
      ∀ r i, EtaRange p ((krBaseSecret p seed).2 r i) :=
  krExpandS_range _

/-- The rows of `t` in `keygen_base`. -/
def krBaseT (p : MldsaSet) [MldsaNative p] (seed : Bytes UInt8) : Fin p.k → MldPoly :=
  krComputeT p (krBaseSecret p seed).1 (krBaseSecret p seed).2 (krRhoA p)

/-- The rows of `t` are `A s1 + s2` with coefficients in `[0, q)`. -/
theorem krBaseT_spec (seed : Bytes UInt8) (r : Fin p.k) :
    toRq (krBaseT p seed r) = ∑ j, matA p (krRhoA p) r j * toRq ((krBaseSecret p seed).1 j) +
        toRq ((krBaseSecret p seed).2 r) ∧
      Reduced (krBaseT p seed r) :=
  krComputeT_spec (krBaseSecret_range _).1 (krBaseSecret_range _).2 _ r

theorem length_krRhoA : (krRhoA p).length = mldsaSeedBytes := length_shake256 _ _

section Layout

variable (seed : Bytes UInt8)

/-- The layout of the base verifying key: the seed, the high rows and the low rows. -/
theorem krKeygenBase_vkb : (krKeygenBase p seed).1 =
    krRhoA p ++ ((rows fun r => (t1 p).pack (polyPower2round p (krBaseT p seed r)).1) ++
      rows fun r => (t0 p).pack (polyPower2round p (krBaseT p seed r)).2) :=
  List.append_assoc _ _ _

/-- The layout of the base signing key: both secrets and the signing seed. -/
theorem krKeygenBase_skb : (krKeygenBase p seed).2 =
    (rows fun j => (eta (p := p)).pack ((krBaseSecret p seed).1 j)) ++
      ((rows fun r => (eta (p := p)).pack ((krBaseSecret p seed).2 r)) ++
        slice mldsaCrhBytes mldsaSeedBytes (krSeedbuf p seed)) :=
  List.append_assoc _ _ _

/-- A row is within its block. -/
theorem row_le {n : ℕ} (i : Fin n) (w : ℕ) : i * w + w ≤ n * w := by
  rw [← Nat.succ_mul]
  exact Nat.mul_le_mul_right _ i.isLt

/-- The fields of the base verifying key. -/
theorem krKeygenBase_rho : slice 0 mldsaSeedBytes (krKeygenBase p seed).1 = krRhoA p := by
  rw [krKeygenBase_vkb, Buffer.slice_append_left (by rw [length_krRhoA, Nat.zero_add]),
    Buffer.slice_self length_krRhoA]

theorem krKeygenBase_t1 (r : Fin p.k) :
    slice (krVkbT1Off + r * polyt1PackedBytes) polyt1PackedBytes (krKeygenBase p seed).1 =
      (t1 p).pack (polyPower2round p (krBaseT p seed r)).1 := by
  have hlen := Buffer.length_rows fun r : Fin p.k =>
    (t1 p).length_pack (polyPower2round p (krBaseT p seed r)).1
  rw [krKeygenBase_vkb, krVkbT1Off, Buffer.slice_append_right length_krRhoA,
    Buffer.slice_append_left ((row_le r _).trans hlen.ge),
    Buffer.slice_rows fun r => (t1 p).length_pack _]

theorem krKeygenBase_t0 (r : Fin p.k) :
    slice (krVkbT0Off p + r * polyt0PackedBytes) polyt0PackedBytes (krKeygenBase p seed).1 =
      (t0 p).pack (polyPower2round p (krBaseT p seed r)).2 := by
  rw [krKeygenBase_vkb, krVkbT0Off, Nat.add_assoc, Buffer.slice_append_right length_krRhoA,
    Buffer.slice_append_right (Buffer.length_rows fun r => (t1 p).length_pack _),
    Buffer.slice_rows fun r => (t0 p).length_pack _]

/-- The fields of the base signing key. -/
theorem krKeygenBase_s1 (j : Fin p.l) :
    slice (krSkbS1Off + j * polyetaPackedBytes) polyetaPackedBytes (krKeygenBase p seed).2 =
      (eta (p := p)).pack ((krBaseSecret p seed).1 j) := by
  have hlen := Buffer.length_rows fun j : Fin p.l =>
    (eta (p := p)).length_pack ((krBaseSecret p seed).1 j)
  rw [krKeygenBase_skb, krSkbS1Off, Nat.zero_add,
    Buffer.slice_append_left ((row_le j _).trans hlen.ge),
    Buffer.slice_rows fun j => (eta (p := p)).length_pack _]

theorem krKeygenBase_s2 (r : Fin p.k) :
    slice (krSkbS2Off p + r * polyetaPackedBytes) polyetaPackedBytes (krKeygenBase p seed).2 =
      (eta (p := p)).pack ((krBaseSecret p seed).2 r) := by
  have hlen := Buffer.length_rows fun r : Fin p.k =>
    (eta (p := p)).length_pack ((krBaseSecret p seed).2 r)
  rw [krKeygenBase_skb, krSkbS2Off,
    Buffer.slice_append_right (Buffer.length_rows fun j => (eta (p := p)).length_pack _),
    Buffer.slice_append_left ((row_le r _).trans hlen.ge),
    Buffer.slice_rows fun r => (eta (p := p)).length_pack _]

end Layout

/-! ## Rerandomisation -/

/-- The sum of the base secret and the second one. -/
def krSumSecret (p : MldsaSet) [MldsaNative p] (seed rho : Bytes UInt8) :
    (Fin p.l → MldPoly) × (Fin p.k → MldPoly) :=
  (fun j i => (krBaseSecret p seed).1 j i + (krExpandS p rho).1 j i,
    fun r i => (krBaseSecret p seed).2 r i + (krExpandS p rho).2 r i)

omit [MldsaNative p] in
/-- A sum of two secrets has at most twice the bound. -/
theorem EtaRange.add_le {x y : ℤ} (hx : EtaRange p x) (hy : EtaRange p y) :
    |x + y| ≤ 2 * p.eta := by
  calc |x + y| ≤ |x| + |y| := abs_add_le _ _
    _ ≤ p.eta + p.eta := add_le_add hx hy
    _ = 2 * p.eta := (two_mul _).symm

/-- The sum of two secrets has at most twice the bound. -/
theorem krSumSecret_le (seed rho : Bytes UInt8) :
    (∀ j i, |(krSumSecret p seed rho).1 j i| ≤ 2 * p.eta) ∧
      ∀ r i, |(krSumSecret p seed rho).2 r i| ≤ 2 * p.eta := by
  obtain ⟨hb1, hb2⟩ := krBaseSecret_range (p := p) seed
  obtain ⟨hs1, hs2⟩ := krExpandS_range (p := p) rho
  exact ⟨fun j i => (hb1 j i).add_le (hs1 j i), fun r i => (hb2 r i).add_le (hs2 r i)⟩

/-- The whole `t` is recovered from the base verifying key, so both halves of the rerandomisation
come to the key of the sum of the secrets. -/
theorem krRerandT_keygen (seed rho : Bytes UInt8) (r : Fin p.k) :
    toRq (krRerandT p (krKeygenBase p seed).1 (krExpandS p rho).1 (krExpandS p rho).2 r) =
        ∑ j, matA p (krRhoA p) r j * toRq ((krSumSecret p seed rho).1 j) +
        toRq ((krSumSecret p seed rho).2 r) ∧
      Reduced (krRerandT p (krKeygenBase p seed).1 (krExpandS p rho).1 (krExpandS p rho).2 r) := by
  obtain ⟨hs1, hs2⟩ := krExpandS_range (p := p) rho
  obtain ⟨hbase, hbaseRed⟩ := krBaseT_spec (p := p) seed r
  obtain ⟨hrand, hrandRed⟩ := krComputeT_spec hs1 hs2 (krRhoA p) r
  have hranges := polyPower2round_ranges (p := p) hbaseRed
  have hshift : polyShiftl p (polyPower2round p (krBaseT p seed r)).1 =
      fun i => (polyPower2round p (krBaseT p seed r)).1 i * 2 ^ mldsaD :=
    polyShiftl_eq fun i => (hranges i).1
  -- neither sum leaves the bounds of `mld_poly_add`
  have hhigh : Addable (krComputeT p (krExpandS p rho).1 (krExpandS p rho).2 (krRhoA p) r)
      (polyShiftl p (polyPower2round p (krBaseT p seed r)).1) := by
    intro i
    have hr := hrandRed i
    have h1 := (hranges i).1
    rw [mldsaQ_eq] at hr
    unfold T1Range at h1
    simp only [hshift, mldsaD]
    omega
  have hadd : Addable (polyAdd p (krComputeT p (krExpandS p rho).1 (krExpandS p rho).2
      (krRhoA p) r) (polyShiftl p (polyPower2round p (krBaseT p seed r)).1))
      (polyPower2round p (krBaseT p seed r)).2 := by
    intro i
    have hr := hrandRed i
    obtain ⟨h1, h0⟩ := hranges i
    rw [mldsaQ_eq] at hr
    unfold T1Range at h1
    unfold T0Range at h0
    rw [polyAdd_eq hhigh]
    simp only [hshift, mldsaD]
    omega
  have hred := reducible32_polyAdd (p := p) hadd
  unfold krRerandT
  dsimp only
  rw [krKeygenBase_rho, krKeygenBase_t1, krKeygenBase_t0,
    (t1 p).unpack_pack fun i => (hranges i).1, (t0 p).unpack_pack fun i => (hranges i).2]
  refine ⟨?_, reduced_polyCaddq (polyReduce_lt hred)⟩
  rw [toRq_polyCaddq (polyReduce_lt hred), toRq_polyReduce hred, toRq_polyAdd hadd,
    toRq_polyAdd hhigh, hrand, add_assoc, hshift, toRq_polyPower2round hbaseRed, hbase]
  simp only [krSumSecret, toRq_add, mul_add, Finset.sum_add_distrib]
  ring

/-- The rerandomised secret is the sum of the base secret and the second one. -/
theorem krRandSecret_keygen (seed rho : Bytes UInt8) :
    krRandSecret p (krKeygenBase p seed).2 rho = krSumSecret p seed rho := by
  obtain ⟨hb1, hb2⟩ := krBaseSecret_range (p := p) seed
  obtain ⟨hs1, hs2⟩ := krExpandS_range (p := p) rho
  unfold krRandSecret
  dsimp only
  refine Prod.ext (funext fun j => ?_) (funext fun r => ?_)
  · dsimp only
    rw [krKeygenBase_s1, (eta (p := p)).unpack_pack fun i => hb1 j i]
    exact polyAdd_eq (addable_of_eta (hb1 j) (hs1 j))
  · dsimp only
    rw [krKeygenBase_s2, (eta (p := p)).unpack_pack fun i => hb2 r i]
    exact polyAdd_eq (addable_of_eta (hb2 r) (hs2 r))

end Geryon
