import Geryon.Krmldsa.Attempt
import Mathlib.Data.ZMod.ValMinAbs

/-!
# Signatures under a rerandomised key

A signature the loop of `sign` returns is accepted by the verifier of FIPS 204. With
`z = y + c s1` and `A s1 + s2 = t1 2^d + t0` the verifier's approximation is
`A z - c t1 2^d = w - c s2 + c t0` (`KeyPair.wApprox_eq`), whose high parts differ from those of `w`
by what `w0 - c s2 + c t0` adds; the two bounds on that sum keep it below a full step, so the hint
brings the high parts of `w` back. The verifier's own bound on `z` is the weaker one.

The doubled bound on `z` is that of the doubled secret: a challenge times a polynomial with
coefficients in `[-2 eta, 2 eta]` has coefficients of at most `2 beta`, so every response within the
bound comes from a mask in range, whatever the secret is (`mask_of_response`).
-/

namespace Geryon

open Buffer (slice rows)
open MldsaNative

variable {p : MldsaSet} [MldsaNative p]

/-- A rerandomised signing key with its verifying key, the secret it was made from and the rows of
`t`. -/
structure KeyPair (rsk : KrRsk p) (vkr : Bytes UInt8) (s1 : Fin p.l → MldPoly)
    (s2 t : Fin p.k → MldPoly) : Prop where
  s1hat : ∀ j, rsk.s1hat j = ntt (toRq (s1 j))
  s2hat : ∀ r, rsk.s2hat r = ntt (toRq (s2 r))
  t0hat : ∀ r, rsk.t0hat r = ntt (toRq (polyPower2round p (t r)).2)
  t_eq : ∀ r, toRq (t r) = ∑ j, matA p rsk.rho r j * toRq (s1 j) + toRq (s2 r)
  t_reduced : ∀ r, Reduced (t r)
  length_rho : rsk.rho.length = mldsaSeedBytes
  vkr_eq : vkr = rsk.rho ++ rows fun r => (t1 p).pack (polyPower2round p (t r)).1
  tr_eq : rsk.tr = shake256 p mldsaTrBytes vkr

/-! ## The key pair of a rerandomiser -/

/-- Rerandomised secrets are below `q`. -/
theorem lt_q_of_le_eta {x : ℤ} (h : |x| ≤ 2 * p.eta) : |x| < (mldsaQ : ℤ) := by
  refine lt_of_le_of_lt h ?_
  cases p <;> decide

/-- So are the low rows of the key. -/
theorem T0Range.lt_q {x : ℤ} (h : T0Range x) : |x| < (mldsaQ : ℤ) := by
  unfold T0Range at h
  rw [mldsaQ_eq, abs_lt]
  omega

/-- Both halves of the rerandomisation of a base key pair succeed, and they belong together. -/
theorem krRandsk_keygen (seed rho : Bytes UInt8) :
    ∃ vkr rsk, krRandvk p (krKeygenBase p seed).1 rho = .ok vkr ∧
      krRandsk p (krKeygenBase p seed).2 (krKeygenBase p seed).1 rho = .ok rsk ∧
      KeyPair rsk vkr (krSumSecret p seed rho).1 (krSumSecret p seed rho).2
        (krRerandT p (krKeygenBase p seed).1 (krExpandS p rho).1 (krExpandS p rho).2) := by
  have hseed : ¬slice 0 mldsaSeedBytes (krKeygenBase p seed).1 ≠ krRhoA p :=
    not_not.mpr (krKeygenBase_rho seed)
  obtain ⟨hs1, hs2⟩ := krSumSecret_le (p := p) seed rho
  unfold krRandvk krRandsk
  dsimp only
  rw [if_neg hseed, if_neg hseed, krRandSecret_keygen]
  refine ⟨_, _, rfl, rfl, ?_⟩
  exact
    { s1hat := fun j => polyNtt_eq fun i => lt_q_of_le_eta (hs1 j i)
      s2hat := fun r => polyNtt_eq fun i => lt_q_of_le_eta (hs2 r i)
      t0hat := fun r => polyNtt_eq fun i =>
        (polyPower2round_ranges (krRerandT_keygen seed rho r).2 i).2.lt_q
      t_eq := fun r => (krRerandT_keygen seed rho r).1
      t_reduced := fun r => (krRerandT_keygen seed rho r).2
      length_rho := length_krRhoA
      vkr_eq := rfl
      tr_eq := rfl }

namespace KeyPair

variable {rsk : KrRsk p} {vkr : Bytes UInt8} {s1 : Fin p.l → MldPoly} {s2 t : Fin p.k → MldPoly}

/-! ## The verifying key as the verifier reads it -/

/-- The verifier reads the seed of the matrix. -/
theorem vkr_rho (h : KeyPair rsk vkr s1 s2 t) : slice 0 mldsaSeedBytes vkr = rsk.rho := by
  rw [h.vkr_eq, Buffer.slice_append_left (by rw [h.length_rho, Nat.zero_add]),
    Buffer.slice_self h.length_rho]

/-- The verifier reads the high rows of `t`. -/
theorem vkr_t1 (h : KeyPair rsk vkr s1 s2 t) (r : Fin p.k) :
    (t1 p).unpack (slice (mldsaSeedBytes + r * polyt1PackedBytes) polyt1PackedBytes vkr) =
      (polyPower2round p (t r)).1 := by
  rw [h.vkr_eq, Buffer.slice_append_right h.length_rho,
    Buffer.slice_rows (fun r => (t1 p).length_pack _) r,
    (t1 p).unpack_pack fun i => (polyPower2round_ranges (h.t_reduced r) i).1]

/-- The verifying key has the size the verifier expects. -/
theorem length_vkr (h : KeyPair rsk vkr s1 s2 t) : vkr.length = p.cryptoPublickeyBytes := by
  rw [h.vkr_eq, List.length_append, h.length_rho,
    Buffer.length_rows fun r => (t1 p).length_pack _]
  rfl

end KeyPair

/-! ## The quantities of an attempt in the ring -/

namespace Attempt

variable (a : Attempt p)

/-- The challenge as an element of the ring. -/
noncomputable def chal : MldsaRq := toRq (polyChallenge p a.c)

/-- The challenge in the NTT domain. -/
theorem cp_eq : a.cp = ntt a.chal := by
  apply polyNtt_eq
  intro i
  rw [mldsaQ_eq, abs_lt]
  have := polyChallenge_signs (p := p) a.c i
  omega

/-- `w` stands for `A y`. -/
theorem toRq_w (hmat : ∀ r j, ntt.symm (a.mat r j) = matA p a.rsk.rho r j) (r : Fin p.k) :
    toRq (a.w r) = ∑ j, matA p a.rsk.rho r j * toRq (a.y j) := by
  have hy : ∀ j i, |a.y j i| < (mldsaQ : ℤ) := fun j i => (a.y_range j i).lt_q
  unfold w
  rw [toRq_polyCaddq (matrixYvec_lt _ _ r), toRq_matrixYvec _ hy, map_sum]
  apply Finset.sum_congr rfl
  intro j _
  rw [map_mul, hmat, RingEquiv.symm_apply_apply]

/-- The parts of `w` recombine. -/
theorem toRq_parts (r : Fin p.k) :
    toRq (fun i => 2 * p.gamma2 * a.w1 r i + a.w0 r i) = toRq (a.w r) := by
  apply toRq_congr
  intro i
  rw [ZMod.intCast_eq_intCast_iff, w1, w0, polyveckDecompose_eq a.w_reduced]
  exact Rounding.decompose_recompose (balanced p) (a.w r i)

/-- The response stands for `c s1 + y`. -/
theorem toRq_z {s1 : Fin p.l → MldPoly} (hs : ∀ j, a.rsk.s1hat j = ntt (toRq (s1 j)))
    (j : Fin p.l) : toRq (a.z j) = a.chal * toRq (s1 j) + toRq (a.y j) := by
  have hadd : Addable (polyProduct p (a.rsk.s1hat j) a.cp) (a.y j) :=
    addable_response a.rsk a.cp a.y_range j
  unfold z krResponse
  dsimp only
  rw [toRq_polyReduce (reducible32_polyAdd hadd), toRq_polyAdd hadd, toRq_polyProduct, hs, a.cp_eq,
    ← map_mul, RingEquiv.symm_apply_apply, mul_comm]

/-- The low row stands for `w0 - c s2 + c t0`. -/
theorem toRq_low {s2 t0 : Fin p.k → MldPoly} (hs : ∀ r, a.rsk.s2hat r = ntt (toRq (s2 r)))
    (ht : ∀ r, a.rsk.t0hat r = ntt (toRq (t0 r))) (r : Fin p.k) :
    toRq (a.low r) = toRq (a.w0 r) - a.chal * toRq (s2 r) + a.chal * toRq (t0 r) := by
  have hw : ∀ i, |a.w0 r i| ≤ p.gamma2 := fun i => (a.parts_bounds r i).2
  have hwq : ∀ i, |a.w0 r i| < (mldsaQ : ℤ) := fun i =>
    lt_of_le_of_lt ((hw i).trans (gamma_bounds p).2.1) (by decide)
  unfold low krLowRow
  rw [toRq_polyAdd (addable_low a.rsk a.cp hw r), krLow, krCt0,
    toRq_polyReduce (reducible32_low a.rsk a.cp hw r), toRq_polyReduce (reducible32_product _ _),
    toRq_polySub hwq (polyProduct_lt _ _), toRq_polyProduct, toRq_polyProduct, hs, ht, a.cp_eq,
    ← map_mul, ← map_mul, RingEquiv.symm_apply_apply, RingEquiv.symm_apply_apply,
    mul_comm a.chal, mul_comm a.chal]

/-! ## An accepted attempt -/

/-- The bound on the responses of an accepted attempt. -/
theorem z_lt (h : a.Accepted) (j : Fin p.l) (i : Fin 256) :
    |a.z j i| < p.gamma1 - krBeta p :=
  (h.1 j).lt a.y_range i

variable {a} {vkr : Bytes UInt8} {s1 : Fin p.l → MldPoly} {s2 t : Fin p.k → MldPoly}

/-- The verifier's approximation has the high parts of the mask and the low parts of the hint. -/
theorem wApprox_eq (hk : KeyPair a.rsk vkr s1 s2 t) (hmat : a.mat = matrixExpand a.rsk.rho)
    (r : Fin p.k) :
    wApprox p a.rsk.rho a.c a.z (polyPower2round p (t r)).1 r =
      toRq fun i => 2 * p.gamma2 * a.w1 r i + a.low r i := by
  have hparts : toRq (fun i => 2 * p.gamma2 * a.w1 r i + a.low r i) =
      toRq (a.w r) - a.chal * toRq (s2 r) + a.chal * toRq (polyPower2round p (t r)).2 := by
    have hsum : (fun i => 2 * p.gamma2 * a.w1 r i + a.low r i) =
        fun i => 2 * p.gamma2 * a.w1 r i + a.w0 r i + a.low r i - a.w0 r i := by
      funext i
      ring
    rw [hsum, toRq_sub, toRq_add, a.toRq_parts, a.toRq_low hk.s2hat hk.t0hat]
    ring
  have happrox : wApprox p a.rsk.rho a.c a.z (polyPower2round p (t r)).1 r =
      ∑ j, matA p a.rsk.rho r j * toRq (a.z j) -
        a.chal * toRq (fun i => (polyPower2round p (t r)).1 i * 2 ^ mldsaD) := by
    unfold wApprox
    rw [map_sub, map_sum, ← map_mul, RingEquiv.symm_apply_apply]
    congr 1
    apply Finset.sum_congr rfl
    intro j _
    rw [map_mul, RingEquiv.symm_apply_apply, matA]
  have hz : ∑ j, matA p a.rsk.rho r j * toRq (a.z j) =
      a.chal * ∑ j, matA p a.rsk.rho r j * toRq (s1 j) + toRq (a.w r) := by
    rw [a.toRq_w (fun r j => by rw [hmat, matA]), Finset.mul_sum, ← Finset.sum_add_distrib]
    apply Finset.sum_congr rfl
    intro j _
    rw [a.toRq_z hk.s1hat]
    ring
  -- the key equation, rounded: `A s1 + s2 = t1 2^d + t0`
  have hkey := (toRq_polyPower2round (p := p) (hk.t_reduced r)).trans (hk.t_eq r)
  rw [happrox, hparts, hz]
  linear_combination (-a.chal) * hkey

/-- The verifier computes the high parts of the mask. -/
theorem useHint_wApprox (hk : KeyPair a.rsk vkr s1 s2 t) (hmat : a.mat = matrixExpand a.rsk.rho)
    (h : a.Accepted) (r : Fin p.k) (i : Fin 256) :
    Rounding.useHint mldsaQ p.gamma2 (a.hint r i)
      (residues (wApprox p a.rsk.rho a.c a.z (polyPower2round p (t r)).1 r) i) = a.w1 r i := by
  obtain ⟨⟨h0, h1⟩, -⟩ := a.parts_bounds r i
  obtain ⟨hlo, hhi⟩ := abs_lt.mp (a.low_lt h.2.1 r i)
  rw [wApprox_eq hk hmat, residues_toRq, Rounding.useHint_emod]
  exact Rounding.useHint_makeHint (balanced p) h0 h1 hlo hhi

/-- An accepted attempt leaves a signature the verifier accepts. -/
theorem accepts (hk : KeyPair a.rsk vkr s1 s2 t) (hmat : a.mat = matrixExpand a.rsk.rho)
    {m' : Bytes UInt8}
    (hmu : a.mu = shake256 p mldsaCrhBytes (shake256 p mldsaTrBytes vkr ++ m'))
    (h : a.Accepted) {sig : KrSig p} (hsig : a.Leaves sig) :
    MldsaAcceptsInternal p vkr m' sig := by
  obtain ⟨hc, hz, hh⟩ := hsig
  have hβ := gamma_bounds p
  have hunpack : (fun j : Fin p.l => (MldsaNative.z (p := p)).unpack
      (slice (p.ctildeBytes + j * p.polyzPackedBytes) p.polyzPackedBytes sig.toList)) = a.z := by
    funext j
    have hrange : ∀ i, ZRange p (a.z j i) := (h.1 j).range a.y_range
    exact (congrArg _ (hz j)).trans ((MldsaNative.z (p := p)).unpack_pack hrange)
  have hhint : hintBitUnpack (slice (p.ctildeBytes + p.l * p.polyzPackedBytes)
      p.polyvechPackedBytes sig.toList) = some a.hint :=
    (congrArg _ hh).trans (hintBitUnpack_hintBitPack h.2.2)
  refine ⟨a.hint, hhint, fun j i => ?_, ?_⟩
  · -- the verifier keeps the bound of the standard
    have hlt := a.z_lt h j i
    rw [hunpack]
    unfold krBeta at hlt hβ
    omega
  · simp only [hunpack, hc, hk.vkr_rho, hk.vkr_t1, useHint_wApprox hk hmat h, ← hmu]
    rw [c, krH, List.append_nil]

end Attempt

/-! ## The doubled bound -/

/-- The distance from zero modulo `q`. -/
def centeredSize : Negacyclic.Size (ZMod mldsaQ) where
  val x := x.valMinAbs.natAbs
  zero := by rw [ZMod.valMinAbs_zero, Int.natAbs_zero]
  neg := ZMod.natAbs_valMinAbs_neg
  add a b := (ZMod.natAbs_valMinAbs_add_le a b).trans (Int.natAbs_add_le _ _)

/-- A short polynomial is its own centered representative. -/
theorem valMinAbs_of_short {x : ℤ} (h : |x| ≤ 2 * p.eta) : (x : ZMod mldsaQ).valMinAbs = x := by
  have hx := abs_lt.mp (lt_q_of_le_eta h)
  have hη : p.eta = 2 := by cases p <;> rfl
  rw [hη, abs_le] at h
  refine (ZMod.valMinAbs_spec _ _).mpr ⟨rfl, ?_⟩
  rw [Set.mem_Ioc, mldsaQ_eq]
  omega

/-- A challenge has the coefficients `0`, `1` and `-1`. -/
theorem challenge_signs (c : Bytes UInt8) :
    Negacyclic.Signs fun i => (polyChallenge p c i : ZMod mldsaQ) := by
  intro i
  obtain h | h | h := polyChallenge_signs (p := p) c i <;> simp [h]

/-- And `tau` that are not zero. -/
theorem challenge_weight (c : Bytes UInt8) :
    (Finset.univ.filter fun i => (polyChallenge p c i : ZMod mldsaQ) ≠ 0).card = p.tau := by
  rw [← polyChallenge_weight (p := p) c]
  congr 1
  apply Finset.filter_congr
  intro i _
  obtain h | h | h := polyChallenge_signs (p := p) c i <;> simp [h]

/-- A challenge times a rerandomised secret is at most `2 beta`. -/
theorem challenge_mul_le {s : MldPoly} (hs : ∀ i, |s i| ≤ 2 * p.eta) (c : Bytes UInt8)
    (i : Fin 256) :
    |(Negacyclic.coeffs (toRq (polyChallenge p c) * toRq s) i).valMinAbs| ≤ krBeta p := by
  have hshort : Negacyclic.Bounded centeredSize (2 * p.eta).toNat (toRq s) := by
    intro i
    have hi := hs i
    rw [toRq, Negacyclic.coeffs_ofCoeffs]
    change (s i : ZMod mldsaQ).valMinAbs.natAbs ≤ _
    rw [valMinAbs_of_short hi]
    rw [abs_le] at hi
    omega
  have hprod : (Negacyclic.coeffs (toRq (polyChallenge p c) * toRq s) i).valMinAbs.natAbs ≤
      p.tau * (2 * p.eta).toNat :=
    hshort.signs_mul centeredSize (challenge_signs c) (challenge_weight c) i
  have hβ : ((p.tau * (2 * p.eta).toNat : ℕ) : ℤ) = krBeta p := by cases p <;> rfl
  rw [← hβ, Int.abs_eq_natAbs]
  exact Int.ofNat_le.mpr hprod

/-- Every response within the bound comes from a mask in range, whatever the secret. -/
theorem mask_of_response {s : MldPoly} (hs : ∀ i, |s i| ≤ 2 * p.eta) (c : Bytes UInt8)
    {z : MldPoly} (hz : ∀ i, |z i| < p.gamma1 - krBeta p) :
    ∃ y : MldPoly, (∀ i, ZRange p (y i)) ∧
      toRq z = toRq (polyChallenge p c) * toRq s + toRq y := by
  refine ⟨fun i => z i - (Negacyclic.coeffs (toRq (polyChallenge p c) * toRq s) i).valMinAbs,
    fun i => ?_, ?_⟩
  · have hprod := abs_le.mp (challenge_mul_le hs c i)
    have hi := abs_lt.mp (hz i)
    unfold ZRange
    dsimp only
    omega
  · have hback : toRq (fun i =>
        (Negacyclic.coeffs (toRq (polyChallenge p c) * toRq s) i).valMinAbs) =
          toRq (polyChallenge p c) * toRq s := by
      unfold toRq
      simp only [ZMod.coe_valMinAbs]
      exact Negacyclic.coeffs.symm_apply_apply _
    rw [toRq_sub, hback]
    ring

/-! ## The loop over the nonces -/

section Loop

variable (mu rhoprime : Bytes UInt8) (mat : Fin p.k → Fin p.l → Hat p) (rsk : KrRsk p)

/-- The loop ends with the first accepted attempt, or has seen every attempt rejected. -/
theorem krSignLoop_spec (nonces : List ℕ) (e : GyErr) (sig : KrSig p) :
    (∃ nonce ∈ nonces, ∃ sig', krSignLoop mu rhoprime mat rsk nonces (.error e, sig) =
        (.ok (), sig') ∧ Attempt.Accepted ⟨mu, rhoprime, nonce, mat, rsk⟩ ∧
      Attempt.Leaves ⟨mu, rhoprime, nonce, mat, rsk⟩ sig') ∨
    ((∀ nonce ∈ nonces, ¬Attempt.Accepted ⟨mu, rhoprime, nonce, mat, rsk⟩) ∧
      ∃ e' sig', krSignLoop mu rhoprime mat rsk nonces (.error e, sig) = (.error e', sig')) := by
  induction nonces generalizing e sig with
  | nil => exact .inr ⟨by simp, e, sig, rfl⟩
  | cons nonce nonces ih =>
    rw [krSignLoop]
    rcases Attempt.krAttempt_spec ⟨mu, rhoprime, nonce, mat, rsk⟩ sig with
      ⟨hacc, sig', heq, hleaves⟩ | ⟨hrej, heq⟩
    · dsimp only at heq
      rw [heq]
      exact .inl ⟨nonce, List.mem_cons_self, sig', rfl, hacc, hleaves⟩
    · dsimp only at heq
      generalize krAttempt sig mu rhoprime nonce mat rsk = res at heq
      obtain ⟨ret, sig1⟩ := res
      obtain rfl := heq
      rcases ih .verify sig1 with ⟨n, hn, hrest⟩ | ⟨hall, hrest⟩
      · exact .inl ⟨n, List.mem_cons_of_mem _ hn, hrest⟩
      · refine .inr ⟨fun n hn => ?_, hrest⟩
        cases hn with
        | head => exact hrej
        | tail _ htail => exact hall n htail

end Loop

/-- `sign` returns the signature of an accepted attempt, or fails after the last attempt with the
buffer wiped. -/
theorem krSign_spec (sig : KrSig p) (rsk : KrRsk p) (msg pre rnd : Bytes UInt8) :
    (∃ a : Attempt p, a.mu = krMu rsk msg pre ∧ a.mat = matrixExpand rsk.rho ∧ a.rsk = rsk ∧
      a.Accepted ∧ ∃ sig', krSign sig rsk msg pre rnd = (.ok (), sig') ∧ a.Leaves sig') ∨
    (krSign sig rsk msg pre rnd = (.error .crypto, krSigZero p) ∧
      ∀ nonce < krMaxAttempts, ∀ buf, (krAttempt buf (krMu rsk msg pre)
        (krRhoprime rsk (krMu rsk msg pre) rnd) nonce (matrixExpand rsk.rho) rsk).1 =
          .error .verify) := by
  unfold krSign
  dsimp only
  rcases krSignLoop_spec (krMu rsk msg pre) (krRhoprime rsk (krMu rsk msg pre) rnd)
    (matrixExpand rsk.rho) rsk (List.range krMaxAttempts) .crypto sig with
    ⟨nonce, -, sig', heq, hacc, hleaves⟩ | ⟨hrej, e, sig', heq⟩
  · rw [heq]
    exact .inl ⟨_, rfl, rfl, rfl, hacc, sig', rfl, hleaves⟩
  · rw [heq]
    refine .inr ⟨rfl, fun nonce hn buf => ?_⟩
    rcases Attempt.krAttempt_spec ⟨_, _, nonce, _, _⟩ buf with ⟨hacc, -⟩ | ⟨-, hmark⟩
    · exact absurd hacc (hrej nonce (List.mem_range.mpr hn))
    · exact hmark

/-- Rerandomised ML-DSA is correct: both halves of a rerandomisation agree, the key is that of the
sum of the secrets, and what is signed under it the unmodified verifier accepts. -/
theorem kr_correct (p : MldsaSet) [MldsaNative p] [LiboqsVerify p] (seed rho : Bytes UInt8) :
    ∃ vkr rsk,
      krRandvk p (krKeygenBase p seed).1 rho = .ok vkr ∧
      krRandsk p (krKeygenBase p seed).2 (krKeygenBase p seed).1 rho = .ok rsk ∧
      rsk.tr = shake256 p mldsaTrBytes vkr ∧
      (∀ r, toRq (krRerandT p (krKeygenBase p seed).1 (krExpandS p rho).1 (krExpandS p rho).2 r) =
        ∑ j, matA p (krRhoA p) r j *
          (toRq ((krBaseSecret p seed).1 j) + toRq ((krExpandS p rho).1 j)) +
        (toRq ((krBaseSecret p seed).2 r) + toRq ((krExpandS p rho).2 r))) ∧
      krRandSecret p (krKeygenBase p seed).2 rho =
        (fun j i => (krBaseSecret p seed).1 j i + (krExpandS p rho).1 j i,
          fun r i => (krBaseSecret p seed).2 r i + (krExpandS p rho).2 r i) ∧
      (∀ j i, |(krRandSecret p (krKeygenBase p seed).2 rho).1 j i| ≤ 2 * p.eta) ∧
      (∀ r i, |(krRandSecret p (krKeygenBase p seed).2 rho).2 r i| ≤ 2 * p.eta) ∧
      ∀ msg ctx rnd sig,
        if mldsaCtxMax < ctx.length then
          gyKrSignRnd sig rsk msg ctx rnd = (.error .toolong, sig)
        else
          (∃ sig', gyKrSignRnd sig rsk msg ctx rnd = (.ok (), sig') ∧
            gyKrVerify sig' vkr msg ctx = .ok () ∧ MldsaAccepts p vkr msg ctx sig') ∨
          (gyKrSignRnd sig rsk msg ctx rnd = (.error .crypto, krSigZero p) ∧
            ∀ nonce < krMaxAttempts, ∀ buf,
              (krAttempt buf (krMu rsk msg ([0, UInt8.ofNat ctx.length] ++ ctx))
                (krRhoprime rsk (krMu rsk msg ([0, UInt8.ofNat ctx.length] ++ ctx)) rnd) nonce
                (matrixExpand rsk.rho) rsk).1 = .error .verify) := by
  obtain ⟨vkr, rsk, hvk, hsk, hk⟩ := krRandsk_keygen (p := p) seed rho
  obtain ⟨hs1, hs2⟩ := krSumSecret_le (p := p) seed rho
  refine ⟨vkr, rsk, hvk, hsk, hk.tr_eq, fun r => ?_, krRandSecret_keygen seed rho,
    fun j i => ?_, fun r i => ?_, fun msg ctx rnd sig => ?_⟩
  · rw [(krRerandT_keygen seed rho r).1]
    simp only [krSumSecret, toRq_add]
  · rw [krRandSecret_keygen]
    exact hs1 j i
  · rw [krRandSecret_keygen]
    exact hs2 r i
  · unfold gyKrSignRnd
    split
    · rfl
    · next hctx =>
      rcases krSign_spec sig rsk msg ([0, UInt8.ofNat ctx.length] ++ ctx) rnd with
        ⟨a, hmu, hmat, rfl, hacc, sig', heq, hleaves⟩ | hfail
      · have hmu' : a.mu = shake256 p mldsaCrhBytes (shake256 p mldsaTrBytes vkr ++
            ([0, UInt8.ofNat ctx.length] ++ ctx ++ msg)) := by
          rw [hmu, krMu, krH, hk.tr_eq, List.append_assoc]
        have hverify : MldsaAccepts p vkr msg ctx sig' :=
          ⟨not_lt.mp hctx, hk.length_vkr, Attempt.accepts hk hmat hmu' hacc hleaves⟩
        refine .inl ⟨sig', heq, ?_, hverify⟩
        unfold gyKrVerify gyMldsaVerify
        rw [if_neg hctx, if_pos ((LiboqsVerify.verifyWithCtxStr_iff _ _ _ _).mpr hverify)]
      · exact .inr hfail

end Geryon
