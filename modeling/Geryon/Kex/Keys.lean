import Geryon.Ratchet.Hybrid

/-!
# Public keys, identities and prekey bundles

The key structures of `kex/prekeys.h`, key identifiers, fingerprints and bundle validation of
`kex/prekeys.c`, for classical and for hybrid suites.
-/

namespace Geryon

/-- `GY_CURVE_TYPE_25519`. -/
def curveType25519 : UInt8 := 0x20

/-- `GY_CURVE_TYPE_448`. -/
def curveType448 : UInt8 := 0x38

/-- `struct gy_public_key`. -/
structure PublicKey (β : Type) where
  pkid : UInt32
  curveType : UInt8
  pk : Bytes β
  deriving DecidableEq

/-- `struct gy_keypair` with its public structure. -/
structure CurvePair (β : Type) where
  pub : PublicKey β
  sk : Bytes β
  deriving DecidableEq

/-- The pair as the ratchets hold it. -/
def CurvePair.keypair {β : Type} (k : CurvePair β) : Keypair β := ⟨k.pub.pk, k.sk⟩

/-- `struct gy_hybrid_public_key`. -/
structure HybridPublicKey (β : Type) where
  curve : PublicKey β
  mlkemEk : Bytes β
  deriving DecidableEq

/-- `struct gy_hybrid_identity_public_key`. -/
structure HybridIdentity (β : Type) where
  base : HybridPublicKey β
  mldsaPk : Bytes β
  deriving DecidableEq

/-- `struct gy_hybrid_keypair` with its public structure. -/
structure HybridPair (β : Type) where
  pub : HybridPublicKey β
  curveSk : Bytes β
  mlkemDk : Bytes β

/-- The pair as the hybrid ratchet holds it. -/
def HybridPair.keypair {β : Type} (k : HybridPair β) : HybridKeypair β :=
  ⟨⟨k.pub.curve.pk, k.curveSk⟩, k.pub.mlkemEk, k.mlkemDk⟩

/-- `struct gy_hybrid_identity_keypair`; the signing key is used by no function modelled here. -/
structure HybridIdentityPair (β : Type) where
  pub : HybridIdentity β
  curveSk : Bytes β
  mlkemDk : Bytes β

/-- `struct gy_hybrid_signed_prekey`, less its signatures and timestamp. -/
structure HybridSignedPrekey (β : Type) where
  kp : HybridPair β
  flags : UInt64

/-- `struct gy_prekey_bundle`. -/
structure PrekeyBundle (β : Type) where
  ik : PublicKey β
  spk : PublicKey β
  spkTimestamp : UInt64
  spkSig : Bytes β
  opk : PublicKey β

/-- `struct gy_hybrid_prekey_bundle`. -/
structure HybridPrekeyBundle (β : Type) where
  ik : HybridIdentity β
  spk : HybridPublicKey β
  spkTimestamp : UInt64
  spkFlags : UInt64
  spkIkId : UInt32
  spkEdSig : Bytes β
  spkMldsaSig : Bytes β
  opk : HybridPublicKey β

variable {β : Type} [Octet β] (desc : SuiteDesc β)

/-! ## Encodings and identifiers -/

/-- `gy_encode_ec`: the curve type, which is the key's length, and the key. -/
def gyEncodeEc (curveType : UInt8) (pk : Bytes β) : Except GyErr (Bytes β) :=
  if curveType ≠ curveType25519 ∧ curveType ≠ curveType448 then .error .arg
  else .ok (Octet.ofByte curveType :: pk.take curveType.toNat)

/-- `gy_pkid`: the first 32 bits of the suite's hash of an encoded key. -/
def gyPkid (enc : Bytes β) : Except GyErr UInt32 := do
  let digest ← desc.hash enc
  return be32Get digest

/-- `gy_pkid_is_present`. -/
def gyPkidIsPresent (pkid : UInt32) : Bool := pkid ≠ 0

/-- `gy_fingerprint`. -/
def gyFingerprint (ik : PublicKey β) : Except GyErr (Bytes β) := do
  let enc ← gyEncodeEc ik.curveType ik.pk
  desc.hash enc

/-- `gy_hybrid_encode_pub`. -/
def gyHybridEncodePub (pub : HybridPublicKey β) : Except GyErr (Bytes β) := do
  let enc ← gyEncodeEc pub.curve.curveType pub.curve.pk
  return enc ++ pub.mlkemEk.take desc.kemPkLen

/-- `gy_hybrid_encode_identity`. -/
def gyHybridEncodeIdentity (ik : HybridIdentity β) : Except GyErr (Bytes β) := do
  let enc ← gyHybridEncodePub desc ik.base
  return enc ++ ik.mldsaPk.take desc.dsaPkLen

/-- `gy_hybrid_ikhash`. -/
def gyHybridIkhash (ik : HybridIdentity β) : Except GyErr (Bytes β) := do
  let enc ← gyHybridEncodeIdentity desc ik
  desc.hash enc

/-! ## Bundle validation -/

/-- `hybrid_check_pkid`, and the comparison of `check_pkid`: the identifier is present and is the
one of the encoded key. -/
def checkPkidOf (enc : Bytes β) (pkid : UInt32) : Except GyErr Unit :=
  if !gyPkidIsPresent pkid then .error .verify
  else do
    let recomputed ← gyPkid desc enc
    if recomputed ≠ pkid then .error .verify else .ok ()

/-- `check_pkid`. -/
def checkPkid (key : PublicKey β) : Except GyErr Unit :=
  if !gyPkidIsPresent key.pkid then .error .verify
  else do
    let enc ← gyEncodeEc key.curveType key.pk
    checkPkidOf desc enc key.pkid

/-- `spk_signed_data`. -/
def spkSignedData (pub : PublicKey β) (timestamp : UInt64) : Except GyErr (Bytes β) := do
  let enc ← gyEncodeEc pub.curveType pub.pk
  return enc ++ be64Put timestamp

/-- `gy_bundle_validate`. -/
def gyBundleValidate (b : PrekeyBundle β) : Except GyErr Unit :=
  if b.ik.curveType ≠ desc.curveType then .error .state
  else if b.spk.curveType ≠ desc.curveType then .error .state
  else if gyPkidIsPresent b.opk.pkid ∧ b.opk.curveType ≠ desc.curveType then .error .state
  else do
    -- each id must be the hash of its key
    checkPkid desc b.ik
    checkPkid desc b.spk
    if gyPkidIsPresent b.opk.pkid then checkPkid desc b.opk
    let signed ← spkSignedData b.spk b.spkTimestamp
    match desc.verify b.spkSig b.ik.pk signed with
    | .ok () => .ok ()
    | .error _ => .error .verify

/-- `hybrid_signed_data`. -/
def hybridSignedData (pub : HybridPublicKey β) (timestamp flags : UInt64) :
    Except GyErr (Bytes β) := do
  let enc ← gyHybridEncodePub desc pub
  return enc ++ be64Put timestamp ++ be64Put flags

/-- `gy_hybrid_flags_validate`: the mandatory AEAD is offered, reserved bits are clear and the
refresh interval bounds are in order. -/
def gyHybridFlagsValidate (flags : UInt64) : Except GyErr Unit :=
  let mn := flags.toNat % 2 ^ 16
  let mx := flags.toNat / 2 ^ 16 % 2 ^ 16
  if flags.toNat / 2 ^ 32 % 2 = 0 then .error .verify
  else if flags.toNat / 2 ^ 35 ≠ 0 then .error .verify
  else if mn < 1 ∨ mx < mn ∨ 100 < mx then .error .verify
  else .ok ()

/-- `CUST_HYBRID_SPK_FLAGS`: intervals from 1 to 100, and the mandatory AEAD. -/
def custHybridSpkFlags : UInt64 := 1 + 100 * 2 ^ 16 + 2 ^ 32

/-- `GY_PREKEY_CTX_MAX`. -/
def prekeyCtxMax : Nat := 64

/-- `gy_hybrid_bundle_validate`; both signatures are checked before either failure is reported. -/
def gyHybridBundleValidate (b : HybridPrekeyBundle β) : Except GyErr Unit :=
  if !desc.isHybrid then .error .state
  else if b.ik.base.curve.curveType ≠ desc.curveType then .error .state
  else if b.spk.curve.curveType ≠ desc.curveType then .error .state
  else if gyPkidIsPresent b.opk.curve.pkid ∧ b.opk.curve.curveType ≠ desc.curveType then
    .error .state
  else do
    let enc ← gyHybridEncodeIdentity desc b.ik
    checkPkidOf desc enc b.ik.base.curve.pkid
    let enc ← gyHybridEncodePub desc b.spk
    checkPkidOf desc enc b.spk.curve.pkid
    -- the signed prekey names the identity it belongs to
    if b.spkIkId ≠ b.ik.base.curve.pkid then .error .verify
    if gyPkidIsPresent b.opk.curve.pkid then do
      let enc ← gyHybridEncodePub desc b.opk
      checkPkidOf desc enc b.opk.curve.pkid
    gyHybridFlagsValidate b.spkFlags
    let signed ← hybridSignedData desc b.spk b.spkTimestamp b.spkFlags
    -- both signatures are evaluated before either result is looked at
    let edOk := (desc.verify b.spkEdSig b.ik.base.curve.pk signed).isOk
    let ctx ← gyInfo desc prekeyCtxMax "prekey"
    let pqOk := (desc.dsaVerify b.spkMldsaSig b.ik.mldsaPk signed ctx).isOk
    if edOk && pqOk then .ok () else .error .verify

end Geryon
