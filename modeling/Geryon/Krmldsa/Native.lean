import Geryon.Basic
import Geryon.Lib.Buffer
import Geryon.Lib.Negacyclic
import Geryon.Lib.Rounding
import Mathlib.Data.ZMod.Basic

/-!
# The provider of ML-DSA

What `core/krmldsa` takes from mldsa-native and from the public liboqs verifier, neither of which is
part of the repository. Polynomials are arrays of integers, as the code has them, with the bounds
under which mldsa-native promises a result; the promise is about the element of the ring
`Z_q[X] / (X^256 + 1)` the array stands for (`toRq`). Polynomials in the NTT domain have a type of
their own, which is only known as a ring isomorphic to that one: every backend has its own order of
coefficients.

`MldsaNative` carries the promises as fields: samplers have their ranges, packers give back what
they packed, and the transform, the arithmetic and the roundings compute what FIPS 204 says on the
inputs they are documented for.
`MldsaAccepts` is the verifier of FIPS 204 (Algorithms 3 and 8) over these operations, and
`LiboqsVerify` a verifier that decides it.
-/

namespace Geryon

/-! ## Parameters -/

/-- `MLDSA_Q`. -/
abbrev mldsaQ : ℕ := 8380417

instance : Fact (1 < mldsaQ) := ⟨by decide⟩

/-- `MLDSA_D`. -/
def mldsaD : ℕ := 13

/-- `MLDSA_SEEDBYTES`. -/
def mldsaSeedBytes : ℕ := 32

/-- `MLDSA_CRHBYTES`. -/
def mldsaCrhBytes : ℕ := 64

/-- `MLDSA_TRBYTES`. -/
def mldsaTrBytes : ℕ := 64

/-- `MLDSA_POLYT1_PACKEDBYTES`. -/
def polyt1PackedBytes : ℕ := 320

/-- `MLDSA_POLYT0_PACKEDBYTES`. -/
def polyt0PackedBytes : ℕ := 416

/-- `MLDSA_POLYETA_PACKEDBYTES`. -/
def polyetaPackedBytes : ℕ := 96

/-- The two parameter sets, `MLD_CONFIG_PARAMETER_SET`. -/
inductive MldsaSet where
  | mldsa44
  | mldsa87
  deriving DecidableEq

namespace MldsaSet

/-- `MLDSA_K`. -/
def k : MldsaSet → ℕ
  | mldsa44 => 4
  | mldsa87 => 8

/-- `MLDSA_L`. -/
def l : MldsaSet → ℕ
  | mldsa44 => 4
  | mldsa87 => 7

/-- `MLDSA_ETA`. -/
def eta : MldsaSet → ℤ
  | mldsa44 => 2
  | mldsa87 => 2

/-- `MLDSA_TAU`. -/
def tau : MldsaSet → ℕ
  | mldsa44 => 39
  | mldsa87 => 60

/-- `MLDSA_BETA`. -/
def beta : MldsaSet → ℤ
  | mldsa44 => 78
  | mldsa87 => 120

/-- `MLDSA_GAMMA1`. -/
def gamma1 : MldsaSet → ℤ
  | mldsa44 => 131072
  | mldsa87 => 524288

/-- `MLDSA_GAMMA2`. -/
def gamma2 : MldsaSet → ℤ
  | mldsa44 => 95232
  | mldsa87 => 261888

/-- `MLDSA_OMEGA`. -/
def omega : MldsaSet → ℕ
  | mldsa44 => 80
  | mldsa87 => 75

/-- `MLDSA_CTILDEBYTES`. -/
def ctildeBytes : MldsaSet → ℕ
  | mldsa44 => 32
  | mldsa87 => 64

/-- `MLDSA_POLYZ_PACKEDBYTES`. -/
def polyzPackedBytes : MldsaSet → ℕ
  | mldsa44 => 576
  | mldsa87 => 640

/-- `MLDSA_POLYW1_PACKEDBYTES`. -/
def polyw1PackedBytes : MldsaSet → ℕ
  | mldsa44 => 192
  | mldsa87 => 128

/-- `MLDSA_POLYVECH_PACKEDBYTES`. -/
def polyvechPackedBytes (p : MldsaSet) : ℕ := p.omega + p.k

/-- `MLDSA_CRYPTO_BYTES`. -/
def cryptoBytes (p : MldsaSet) : ℕ :=
  p.ctildeBytes + p.l * p.polyzPackedBytes + p.polyvechPackedBytes

/-- `MLDSA_CRYPTO_PUBLICKEYBYTES`. -/
def cryptoPublickeyBytes (p : MldsaSet) : ℕ := mldsaSeedBytes + p.k * polyt1PackedBytes

/-- The number of high parts, `(q - 1) / (2 * gamma2)`. -/
def highParts : MldsaSet → ℕ
  | mldsa44 => 44
  | mldsa87 => 16

end MldsaSet

/-! ## Polynomials -/

/-- `mld_poly`. -/
abbrev MldPoly := Fin 256 → ℤ

/-- The ring `Z_q[X] / (X^256 + 1)`. -/
abbrev MldsaRq := Negacyclic 256 (ZMod mldsaQ)

/-- The element of the ring an array of coefficients stands for. -/
noncomputable def toRq (a : MldPoly) : MldsaRq :=
  Negacyclic.ofCoeffs fun i => (a i : ZMod mldsaQ)

/-- The coefficients of an element of the ring as integers in `[0, q)`. -/
noncomputable def residues (x : MldsaRq) : MldPoly := fun i => ((Negacyclic.coeffs x i).val : ℤ)

/-- Coefficients in the interval `[0, q)`. -/
def Reduced (a : MldPoly) : Prop := ∀ i, 0 ≤ a i ∧ a i < (mldsaQ : ℤ)

/-- Coefficients `mld_poly_reduce` reduces. -/
def Reducible32 (a : MldPoly) : Prop := ∀ i, -2 ^ 31 ≤ a i ∧ a i ≤ 2 ^ 31 - 2 ^ 22 - 1

/-- Summands whose sum `mld_poly_reduce` reduces. -/
def Addable (a b : MldPoly) : Prop :=
  ∀ i, -2 ^ 31 ≤ a i + b i ∧ a i + b i < 2 ^ 31 - 2 ^ 22 - 1

/-- The hint bits of a signature. -/
abbrev MldHint (p : MldsaSet) := Fin p.k → Fin 256 → Bool

/-- The number of hint bits that are set. -/
def hintWeight {p : MldsaSet} (h : MldHint p) : ℕ :=
  ∑ r, (Finset.univ.filter fun i => h r i = true).card

/-- `MakeHint` of FIPS 204 on low rows `w0` and high rows `w1`: whether the low parts overflow into
the high parts. -/
def mldHint (p : MldsaSet) (w0 w1 : Fin p.k → MldPoly) : MldHint p := fun r i =>
  Rounding.makeHint mldsaQ p.gamma2 (-(w0 r i)) (2 * p.gamma2 * w1 r i + w0 r i)

/-- A signature buffer. -/
abbrev KrSig (p : MldsaSet) := Buffer UInt8 p.cryptoBytes

/-- Where the response of a row stands in a signature, and behind the last one the hint. -/
def sigZOff (p : MldsaSet) (j : ℕ) : ℕ := p.ctildeBytes + j * p.polyzPackedBytes

/-! ## The provider -/

/-- A packer of polynomials: `width` bytes, from which coefficients in the range are unpacked. -/
structure PolyPacker (width : ℕ) (InRange : ℤ → Prop) where
  pack : MldPoly → Bytes UInt8
  unpack : Bytes UInt8 → MldPoly
  length_pack : ∀ a, (pack a).length = width
  unpack_pack : ∀ {a}, (∀ i, InRange (a i)) → unpack (pack a) = a

/-- `MLDSA_ETA`-bounded coefficients. -/
def EtaRange (p : MldsaSet) (x : ℤ) : Prop := |x| ≤ p.eta

/-- The coefficients of the high parts of `Power2Round`. -/
def T1Range (x : ℤ) : Prop := 0 ≤ x ∧ x < 2 ^ 10

/-- The coefficients of the low parts of `Power2Round`. -/
def T0Range (x : ℤ) : Prop := -2 ^ 12 < x ∧ x ≤ 2 ^ 12

/-- The coefficients of masks and responses. -/
def ZRange (p : MldsaSet) (x : ℤ) : Prop := -p.gamma1 < x ∧ x ≤ p.gamma1

/-- mldsa-native for a parameter set. -/
class MldsaNative (p : MldsaSet) where
  /-- `mld_shake256` with the output length. -/
  shake256 : ℕ → Bytes UInt8 → Bytes UInt8
  length_shake256 : ∀ n b, (shake256 n b).length = n
  /-- Polynomials in the NTT domain. -/
  Hat : Type
  [commRing : CommRing Hat]
  /-- The number theoretic transform of FIPS 204. -/
  ntt : MldsaRq ≃+* Hat
  /-- `mld_poly_ntt`. -/
  polyNtt : MldPoly → Hat
  polyNtt_eq : ∀ {a}, (∀ i, |a i| < (mldsaQ : ℤ)) → polyNtt a = ntt (toRq a)
  /-- `mld_poly_pointwise_montgomery`. -/
  pointwiseMontgomery : Hat → Hat → Hat
  pointwiseMontgomery_eq : ∀ a b, 2 ^ 32 * pointwiseMontgomery a b = a * b
  /-- `mld_polyvec_matrix_pointwise_montgomery_row` on a row of the matrix. -/
  rowPointwiseMontgomery : (Fin p.l → Hat) → (Fin p.l → Hat) → Hat
  rowPointwiseMontgomery_eq : ∀ u v, 2 ^ 32 * rowPointwiseMontgomery u v = ∑ j, u j * v j
  /-- `mld_poly_invntt_tomont`. -/
  invnttTomont : Hat → MldPoly
  toRq_invnttTomont : ∀ x, toRq (invnttTomont x) = ntt.symm (2 ^ 32 * x)
  invnttTomont_lt : ∀ x i, |invnttTomont x i| < (mldsaQ : ℤ)
  /-- `mld_polyvec_matrix_pointwise_montgomery_yvec`. -/
  matrixYvec : (Fin p.k → Fin p.l → Hat) → (Fin p.l → MldPoly) → Fin p.k → MldPoly
  toRq_matrixYvec : ∀ mat {y : Fin p.l → MldPoly}, (∀ j i, |y j i| < (mldsaQ : ℤ)) →
    ∀ r, toRq (matrixYvec mat y r) = ntt.symm (∑ j, mat r j * ntt (toRq (y j)))
  matrixYvec_lt : ∀ mat y r i, |matrixYvec mat y r i| < (mldsaQ : ℤ)
  /-- `mld_poly_add`. -/
  polyAdd : MldPoly → MldPoly → MldPoly
  polyAdd_eq : ∀ {a b}, Addable a b → polyAdd a b = fun i => a i + b i
  /-- `mld_poly_sub`. -/
  polySub : MldPoly → MldPoly → MldPoly
  polySub_eq : ∀ {a b}, (∀ i, |a i| < (mldsaQ : ℤ)) → (∀ i, |b i| < (mldsaQ : ℤ)) →
    polySub a b = fun i => a i - b i
  /-- `mld_poly_shiftl`. -/
  polyShiftl : MldPoly → MldPoly
  polyShiftl_eq : ∀ {a}, (∀ i, T1Range (a i)) → polyShiftl a = fun i => a i * 2 ^ mldsaD
  /-- `mld_poly_caddq`. -/
  polyCaddq : MldPoly → MldPoly
  polyCaddq_eq : ∀ {a}, (∀ i, |a i| < (mldsaQ : ℤ)) →
    polyCaddq a = fun i => if a i < 0 then a i + mldsaQ else a i
  /-- `mld_poly_chknorm`: whether some coefficient reaches the bound. -/
  polyChknorm : MldPoly → ℤ → Bool
  polyChknorm_iff : ∀ {a b}, (∀ i, |a i| ≤ 6283009) → 0 ≤ b → b ≤ ((mldsaQ : ℤ) - 1) / 8 →
    (polyChknorm a b = true ↔ ∃ i, b ≤ |a i|)
  /-- `mld_poly_power2round`: the high and the low parts. -/
  polyPower2round : MldPoly → MldPoly × MldPoly
  polyPower2round_eq : ∀ {a}, Reduced a → polyPower2round a =
    (fun i => (Rounding.power2Round mldsaQ mldsaD (a i)).1,
      fun i => (Rounding.power2Round mldsaQ mldsaD (a i)).2)
  /-- `mld_polyveck_decompose`: the high and the low parts. -/
  polyveckDecompose : (Fin p.k → MldPoly) → (Fin p.k → MldPoly) × (Fin p.k → MldPoly)
  polyveckDecompose_eq : ∀ {w}, (∀ r, Reduced (w r)) → polyveckDecompose w =
    (fun r i => (Rounding.decompose mldsaQ p.gamma2 (w r i)).1,
      fun r i => (Rounding.decompose mldsaQ p.gamma2 (w r i)).2)
  /-- `mld_reduce32`. -/
  reduce32 : ℤ → ℤ
  reduce32_cast : ∀ {a}, -2 ^ 31 ≤ a → a ≤ 2 ^ 31 - 2 ^ 22 - 1 →
    (reduce32 a : ZMod mldsaQ) = a
  reduce32_le : ∀ {a}, -2 ^ 31 ≤ a → a ≤ 2 ^ 31 - 2 ^ 22 - 1 → |reduce32 a| ≤ 6283009
  /-- `mld_polyvec_matrix_expand`. -/
  matrixExpand : Bytes UInt8 → Fin p.k → Fin p.l → Hat
  /-- `mld_poly_uniform_eta`. -/
  uniformEta : Bytes UInt8 → ℕ → MldPoly
  uniformEta_range : ∀ seed nonce i, EtaRange p (uniformEta seed nonce i)
  /-- `mld_yvec_init`, read back with `mld_yvec_get_poly`. -/
  yvecInit : Bytes UInt8 → ℕ → Fin p.l → MldPoly
  yvecInit_range : ∀ seed nonce j i, ZRange p (yvecInit seed nonce j i)
  /-- `mld_poly_challenge`. -/
  polyChallenge : Bytes UInt8 → MldPoly
  polyChallenge_signs : ∀ c i, polyChallenge c i = 0 ∨ polyChallenge c i = 1 ∨
    polyChallenge c i = -1
  polyChallenge_weight : ∀ c, (Finset.univ.filter fun i => polyChallenge c i ≠ 0).card = p.tau
  /-- `mld_polyt1_pack` and `mld_polyt1_unpack`. -/
  t1 : PolyPacker polyt1PackedBytes T1Range
  /-- `mld_polyt0_pack` and `mld_polyt0_unpack`. -/
  t0 : PolyPacker polyt0PackedBytes T0Range
  /-- `mld_polyeta_pack` and `mld_polyeta_unpack`. -/
  eta : PolyPacker polyetaPackedBytes (EtaRange p)
  /-- `mld_polyz_pack` and `mld_polyz_unpack`. -/
  z : PolyPacker p.polyzPackedBytes (ZRange p)
  /-- `mld_polyw1_pack`. -/
  w1Pack : MldPoly → Bytes UInt8
  length_w1Pack : ∀ a, (w1Pack a).length = p.polyw1PackedBytes
  /-- `HintBitPack` of FIPS 204. -/
  hintBitPack : MldHint p → Bytes UInt8
  /-- `HintBitUnpack` of FIPS 204. -/
  hintBitUnpack : Bytes UInt8 → Option (MldHint p)
  length_hintBitPack : ∀ h, (hintBitPack h).length = p.polyvechPackedBytes
  hintBitUnpack_hintBitPack : ∀ {h}, hintWeight h ≤ p.omega →
    hintBitUnpack (hintBitPack h) = some h
  /-- `mld_pack_sig_z`. -/
  packSigZ : KrSig p → MldPoly → Fin p.l → KrSig p
  packSigZ_eq : ∀ (sig : KrSig p) {a : MldPoly} (j : Fin p.l), (∀ i, ZRange p (a i)) →
    packSigZ sig a j = sig.put (sigZOff p j) (z.pack a)
  /-- `mld_pack_sig_h`: nothing is returned for more than `omega` hint bits. -/
  packSigH : KrSig p → (Fin p.k → MldPoly) → (Fin p.k → MldPoly) → Option (KrSig p)
  packSigH_eq : ∀ (sig : KrSig p) {w0 w1 : Fin p.k → MldPoly},
    (∀ r i, |w0 r i| < 2 * p.gamma2) → (∀ r i, 0 ≤ w1 r i ∧ w1 r i < p.highParts) →
    packSigH sig w0 w1 =
      if p.omega < hintWeight (mldHint p w0 w1) then none
      else some (sig.put (sigZOff p p.l) (hintBitPack (mldHint p w0 w1)))

attribute [reducible, instance] MldsaNative.commRing

/-! ## The verifier of FIPS 204 -/

section Verifier

variable (p : MldsaSet) [MldsaNative p]

open MldsaNative

/-- `w'_Approx`: the row `r` of `A z - c t1 2^d`. -/
noncomputable def wApprox (rho c : Bytes UInt8) (z : Fin p.l → MldPoly) (t1 : MldPoly)
    (r : Fin p.k) : MldsaRq :=
  (ntt (p := p)).symm (∑ j, matrixExpand rho r j * ntt (toRq (z j)) -
    ntt (toRq (polyChallenge p c)) * ntt (toRq fun i => t1 i * 2 ^ mldsaD))

/-- `ML-DSA.Verify_internal`: a signature of the message `M'`. -/
def MldsaAcceptsInternal (pk m' : Bytes UInt8) (sig : KrSig p) : Prop :=
  let rho := Buffer.slice 0 mldsaSeedBytes pk
  let t1 (r : Fin p.k) := (MldsaNative.t1 p).unpack
    (Buffer.slice (mldsaSeedBytes + r * polyt1PackedBytes) polyt1PackedBytes pk)
  let c := Buffer.slice 0 p.ctildeBytes sig.toList
  let z (j : Fin p.l) := (MldsaNative.z (p := p)).unpack
    (Buffer.slice (p.ctildeBytes + j * p.polyzPackedBytes) p.polyzPackedBytes sig.toList)
  let mu := shake256 p mldsaCrhBytes (shake256 p mldsaTrBytes pk ++ m')
  ∃ h : MldHint p,
    hintBitUnpack (Buffer.slice (p.ctildeBytes + p.l * p.polyzPackedBytes) p.polyvechPackedBytes
      sig.toList) = some h ∧
    (∀ j i, |z j i| < p.gamma1 - p.beta) ∧
    c = shake256 p p.ctildeBytes (mu ++ Buffer.rows fun r : Fin p.k => w1Pack p fun i =>
      Rounding.useHint mldsaQ p.gamma2 (h r i)
        (residues (wApprox p rho c z (t1 r) r) i))

/-- `ML-DSA.Verify`: a signature of a message in a context. -/
def MldsaAccepts (pk msg ctx : Bytes UInt8) (sig : KrSig p) : Prop :=
  ctx.length ≤ 255 ∧ pk.length = p.cryptoPublickeyBytes ∧
    MldsaAcceptsInternal p pk ([0, UInt8.ofNat ctx.length] ++ ctx ++ msg) sig

/-- The public liboqs verifier. -/
class LiboqsVerify (p : MldsaSet) [MldsaNative p] where
  /-- `OQS_SIG_ml_dsa_*_verify_with_ctx_str` on message, signature, context and public key. -/
  verifyWithCtxStr : Bytes UInt8 → KrSig p → Bytes UInt8 → Bytes UInt8 → Bool
  verifyWithCtxStr_iff : ∀ msg sig ctx pk,
    verifyWithCtxStr msg sig ctx pk = true ↔ MldsaAccepts p pk msg ctx sig

end Verifier

end Geryon
