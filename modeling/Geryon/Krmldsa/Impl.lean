import Geryon.Krmldsa.Native

/-!
# Rerandomised ML-DSA

`core/krmldsa/krmldsa_impl.c` over its provider, and the dispatchers `core/krmldsa44.c` and
`core/krmldsa87.c`. A key pair is rerandomised by adding a second short secret: the verifying half
can do that to the base key alone, because the base key has the whole of `t`.

The signature buffer is written in place, also by the attempts that are rejected; it starts out as
scratch for the high bits. The stack copies the code wipes are left out, and so are the
out-parameters `mat` and `s1hat` of `kr_compute_t`, which its callers do not read.
-/

namespace Geryon

open Buffer (slice rows)
open MldsaNative

/-- `GY_KR_BETA`. -/
def krBeta (p : MldsaSet) : ℤ := 2 * p.beta

/-- `GY_KR_MAX_ATTEMPTS`. -/
def krMaxAttempts : ℕ := 4096

/-- `GY_MLDSA_CTX_MAX`. -/
def mldsaCtxMax : ℕ := 255

/-- `GY_KR_RHO_A_LABEL`. -/
def krRhoALabel : MldsaSet → String
  | .mldsa44 => "geryon-QSPGS-KR-ML-DSA-44-v1"
  | .mldsa87 => "geryon-QSPGS-KR-ML-DSA-87-v1"

/-- `GY_KR_VKB_T1_OFF`. -/
def krVkbT1Off : ℕ := mldsaSeedBytes

/-- `GY_KR_VKB_T0_OFF`. -/
def krVkbT0Off (p : MldsaSet) : ℕ := mldsaSeedBytes + p.k * polyt1PackedBytes

/-- `GY_KR_SKB_S1_OFF`. -/
def krSkbS1Off : ℕ := 0

/-- `GY_KR_SKB_S2_OFF`. -/
def krSkbS2Off (p : MldsaSet) : ℕ := p.l * polyetaPackedBytes

/-- `GY_KR_SKB_KEY_OFF`. -/
def krSkbKeyOff (p : MldsaSet) : ℕ := krSkbS2Off p + p.k * polyetaPackedBytes

/-- `struct gy_kr_rsk_impl`. -/
structure KrRsk (p : MldsaSet) [MldsaNative p] where
  s1hat : Fin p.l → Hat p
  s2hat : Fin p.k → Hat p
  t0hat : Fin p.k → Hat p
  rho : Bytes UInt8
  tr : Bytes UInt8
  key : Bytes UInt8

section Native

variable (p : MldsaSet) [MldsaNative p]

/-! ## Hashes and polynomials -/

/-- `kr_H`. -/
def krH (outlen : ℕ) (in1 in2 in3 : Bytes UInt8) : Bytes UInt8 :=
  shake256 p outlen (in1 ++ in2 ++ in3)

/-- `kr_rho_a`. -/
def krRhoA : Bytes UInt8 := shake256 p mldsaSeedBytes (ascii (krRhoALabel p))

/-- `kr_expand_s`. A batched call samples each of its polynomials with the polynomial's own nonce;
the slot with nonce `0xFF` is overwritten by the next call. -/
def krExpandS (seed : Bytes UInt8) : (Fin p.l → MldPoly) × (Fin p.k → MldPoly) :=
  let seed := slice 0 mldsaCrhBytes seed
  (fun j => uniformEta p seed j, fun r => uniformEta p seed (p.l + r))

/-- `mld_poly_reduce`. -/
def polyReduce (a : MldPoly) : MldPoly := fun i => reduce32 p (a i)

/-- The product of two polynomials in the NTT domain, in the normal domain:
`mld_poly_pointwise_montgomery` and `mld_poly_invntt_tomont`. -/
def polyProduct (a b : Hat p) : MldPoly := invnttTomont (pointwiseMontgomery a b)

/-- `kr_compute_t`. -/
def krComputeT (s1 : Fin p.l → MldPoly) (s2 : Fin p.k → MldPoly) (rho : Bytes UInt8) :
    Fin p.k → MldPoly :=
  let s1hat j := polyNtt (p := p) (s1 j)
  let mat := matrixExpand (p := p) rho
  fun r =>
    let t := invnttTomont (rowPointwiseMontgomery (mat r) s1hat)
    let t := polyAdd p t (s2 r)
    let t := polyReduce p t
    polyCaddq p t

/-- `kr_rerand_t`. -/
def krRerandT (vkb : Bytes UInt8) (s1p : Fin p.l → MldPoly) (s2p : Fin p.k → MldPoly) :
    Fin p.k → MldPoly :=
  let tr := krComputeT p s1p s2p (slice 0 mldsaSeedBytes vkb)
  fun r =>
    let tmp := (t1 p).unpack (slice (krVkbT1Off + r * polyt1PackedBytes) polyt1PackedBytes vkb)
    -- the high part in its place, then the low part
    let tmp := polyShiftl p tmp
    let t := polyAdd p (tr r) tmp
    let tmp := (t0 p).unpack (slice (krVkbT0Off p + r * polyt0PackedBytes) polyt0PackedBytes vkb)
    let t := polyAdd p t tmp
    let t := polyReduce p t
    polyCaddq p t

/-- `kr_pack_vkr`: the verifying key and the low rows. -/
def krPackVkr (rho : Bytes UInt8) (tr : Fin p.k → MldPoly) :
    Bytes UInt8 × (Fin p.k → MldPoly) :=
  (rho ++ rows fun r => (t1 p).pack (polyPower2round p (tr r)).1,
    fun r => (polyPower2round p (tr r)).2)

/-! ## Keys -/

/-- The seed `keygen_base` squeezes: that of the secret, and the signing seed. -/
def krSeedbuf (seed : Bytes UInt8) : Bytes UInt8 :=
  shake256 p (mldsaCrhBytes + mldsaSeedBytes)
    (slice 0 mldsaSeedBytes seed ++ [UInt8.ofNat p.k, UInt8.ofNat p.l])

/-- `keygen_base`: the base verifying key and the base signing key. -/
def krKeygenBase (seed : Bytes UInt8) : Bytes UInt8 × Bytes UInt8 :=
  let seedbuf := krSeedbuf p seed
  let (s1, s2) := krExpandS p seedbuf
  let rho := krRhoA p
  let t := krComputeT p s1 s2 rho
  (rho ++ (rows fun r => (t1 p).pack (polyPower2round p (t r)).1) ++
      rows fun r => (t0 p).pack (polyPower2round p (t r)).2,
    (rows fun j => (eta (p := p)).pack (s1 j)) ++ (rows fun r => (eta (p := p)).pack (s2 r)) ++
      slice mldsaCrhBytes mldsaSeedBytes seedbuf)

/-- `randvk`. -/
def krRandvk (vkb rho : Bytes UInt8) : Except GyErr (Bytes UInt8) :=
  let rhoA := krRhoA p
  if slice 0 mldsaSeedBytes vkb ≠ rhoA then .error .arg
  else
    let (s1p, s2p) := krExpandS p rho
    let tr := krRerandT p vkb s1p s2p
    .ok (krPackVkr p rhoA tr).1

/-- The rerandomised secret of `randsk`. -/
def krRandSecret (skb rho : Bytes UInt8) : (Fin p.l → MldPoly) × (Fin p.k → MldPoly) :=
  let (s1p, s2p) := krExpandS p rho
  (fun j => polyAdd p ((eta (p := p)).unpack
      (slice (krSkbS1Off + j * polyetaPackedBytes) polyetaPackedBytes skb)) (s1p j),
    fun r => polyAdd p ((eta (p := p)).unpack
      (slice (krSkbS2Off p + r * polyetaPackedBytes) polyetaPackedBytes skb)) (s2p r))

/-- `randsk`. -/
def krRandsk (skb vkb rho : Bytes UInt8) : Except GyErr (KrRsk p) :=
  let rhoA := krRhoA p
  -- both keys must be over the same matrix
  if slice 0 mldsaSeedBytes vkb ≠ rhoA then .error .arg
  else
    let (s1p, s2p) := krExpandS p rho
    let tr := krRerandT p vkb s1p s2p
    let (vkr, t0) := krPackVkr p rhoA tr
    let (s1, s2) := krRandSecret p skb rho
    -- the secrets go into the signing loop in the transformed domain
    .ok
      { s1hat := fun j => polyNtt (s1 j)
        s2hat := fun r => polyNtt (s2 r)
        t0hat := fun r => polyNtt (t0 r)
        rho := rhoA
        tr := shake256 p mldsaTrBytes vkr
        key := slice (krSkbKeyOff p) mldsaSeedBytes skb }

/-! ## Signatures -/

variable {p}

/-- The response of a row: `y + c * s1`. -/
def krResponse (rsk : KrRsk p) (y : Fin p.l → MldPoly) (cp : Hat p) (j : Fin p.l) : MldPoly :=
  let z := polyProduct p (rsk.s1hat j) cp
  let z := polyAdd p z (y j)
  polyReduce p z

/-- The loop of `kr_attempt` over the responses: whether it ran to its end, and the buffer. -/
def krResponses (rsk : KrRsk p) (y : Fin p.l → MldPoly) (cp : Hat p) :
    List (Fin p.l) → KrSig p → Bool × KrSig p
  | [], sig => (true, sig)
  | j :: js, sig =>
    let z := krResponse rsk y cp j
    if polyChknorm p z (p.gamma1 - krBeta p) then (false, sig)
    else krResponses rsk y cp js (packSigZ sig z j)

/-- The low part of a row without the secret: `w0 - c * s2`. -/
def krLow (rsk : KrRsk p) (cp : Hat p) (w0 : MldPoly) (r : Fin p.k) : MldPoly :=
  polyReduce p (polySub p w0 (polyProduct p (rsk.s2hat r) cp))

/-- `c * t0` for a row. -/
def krCt0 (rsk : KrRsk p) (cp : Hat p) (r : Fin p.k) : MldPoly :=
  polyReduce p (polyProduct p (rsk.t0hat r) cp)

/-- The loop of `kr_attempt` over the low parts, unless it leaves early. -/
def krLows (rsk : KrRsk p) (cp : Hat p) :
    List (Fin p.k) → (Fin p.k → MldPoly) → Option (Fin p.k → MldPoly)
  | [], w0 => some w0
  | r :: rs, w0 =>
    let low := krLow rsk cp (w0 r) r
    if polyChknorm p low (p.gamma2 - krBeta p) then none
    else
      let ct0 := krCt0 rsk cp r
      if polyChknorm p ct0 p.gamma2 then none
      else krLows rsk cp rs (Function.update w0 r (polyAdd p low ct0))

/-- `kr_attempt`: `GY_ERR_VERIFY` marks a rejection. -/
def krAttempt (sig : KrSig p) (mu rhoprime : Bytes UInt8) (nonce : ℕ)
    (mat : Fin p.k → Fin p.l → Hat p) (rsk : KrRsk p) : Except GyErr Unit × KrSig p :=
  let y := yvecInit (p := p) rhoprime nonce
  let w := matrixYvec mat y
  let (w1, w0) := polyveckDecompose fun r => polyCaddq p (w r)
  -- the commitment is hashed from the signature buffer itself
  let sig := sig.put 0 (rows fun r => w1Pack p (w1 r))
  let c := krH p p.ctildeBytes mu (slice 0 (p.k * p.polyw1PackedBytes) sig.toList) []
  let cp := polyNtt (polyChallenge p c)
  match krResponses rsk y cp (List.finRange p.l) sig with
  -- a response out of range: draw again
  | (false, sig) => (.error .verify, sig)
  | (true, sig) =>
    match krLows rsk cp (List.finRange p.k) w0 with
    | none => (.error .verify, sig)
    -- the hint has too many ones, or the signature is complete
    | some w0 =>
      let sig := sig.put 0 c
      match packSigH sig w0 w1 with
      | none => (.error .verify, sig)
      | some sig => (.ok (), sig)

/-- The loop of `sign` over the nonces, with the last return code. -/
def krSignLoop (mu rhoprime : Bytes UInt8) (mat : Fin p.k → Fin p.l → Hat p) (rsk : KrRsk p) :
    List ℕ → Except GyErr Unit × KrSig p → Except GyErr Unit × KrSig p
  | [], s => s
  | nonce :: nonces, (_, sig) =>
    match krAttempt sig mu rhoprime nonce mat rsk with
    | (.ok (), sig) => (.ok (), sig)
    | (.error e, sig) => krSignLoop mu rhoprime mat rsk nonces (.error e, sig)

/-- The message representative of `sign`. -/
def krMu (rsk : KrRsk p) (msg pre : Bytes UInt8) : Bytes UInt8 :=
  krH p mldsaCrhBytes rsk.tr pre msg

/-- The mask seed of `sign`. -/
def krRhoprime (rsk : KrRsk p) (mu rnd : Bytes UInt8) : Bytes UInt8 :=
  krH p mldsaCrhBytes rsk.key rnd mu

/-- `gy_secure_zero` on the signature buffer. -/
def krSigZero (p : MldsaSet) : KrSig p := ⟨zeros p.cryptoBytes, length_zeros _⟩

/-- `sign`. -/
def krSign (sig : KrSig p) (rsk : KrRsk p) (msg pre rnd : Bytes UInt8) :
    Except GyErr Unit × KrSig p :=
  let mu := krMu rsk msg pre
  let rhoprime := krRhoprime rsk mu rnd
  let mat := matrixExpand rsk.rho
  match krSignLoop mu rhoprime mat rsk (List.range krMaxAttempts) (.error .crypto, sig) with
  | (.ok (), sig) => (.ok (), sig)
  | (.error _, _) => (.error .crypto, krSigZero p)

/-! ## Dispatchers -/

/-- `gy_kr*_sign_rnd`. -/
def gyKrSignRnd (sig : KrSig p) (rsk : KrRsk p) (msg ctx rnd : Bytes UInt8) :
    Except GyErr Unit × KrSig p :=
  if mldsaCtxMax < ctx.length then (.error .toolong, sig)
  else krSign sig rsk msg ([0, UInt8.ofNat ctx.length] ++ ctx) rnd

/-- `gy_kr*_sign`, with what the random source returned for the hedge. -/
def gyKrSign (sig : KrSig p) (rsk : KrRsk p) (msg ctx : Bytes UInt8)
    (rnd : Except GyErr (Bytes UInt8)) : Except GyErr Unit × KrSig p :=
  match rnd with
  | .error _ => (.error .crypto, sig)
  | .ok rnd => gyKrSignRnd sig rsk msg ctx rnd

/-- `gy_mldsa*_verify`. -/
def gyMldsaVerify [LiboqsVerify p] (sig : KrSig p) (pk msg ctx : Bytes UInt8) :
    Except GyErr Unit :=
  if mldsaCtxMax < ctx.length then .error .toolong
  else if LiboqsVerify.verifyWithCtxStr msg sig ctx pk then .ok ()
  else .error .verify

/-- `gy_kr*_verify`. -/
def gyKrVerify [LiboqsVerify p] (sig : KrSig p) (vkr msg ctx : Bytes UInt8) : Except GyErr Unit :=
  gyMldsaVerify sig vkr msg ctx

end Native

/-- `gy_kr44_sign_rnd`. -/
def gyKr44SignRnd [MldsaNative .mldsa44] := gyKrSignRnd (p := .mldsa44)

/-- `gy_kr87_sign_rnd`. -/
def gyKr87SignRnd [MldsaNative .mldsa87] := gyKrSignRnd (p := .mldsa87)

/-- `gy_kr44_verify`. -/
def gyKr44Verify [MldsaNative .mldsa44] [LiboqsVerify .mldsa44] := gyKrVerify (p := .mldsa44)

/-- `gy_kr87_verify`. -/
def gyKr87Verify [MldsaNative .mldsa87] [LiboqsVerify .mldsa87] := gyKrVerify (p := .mldsa87)

end Geryon
