import Geryon.Lib.Codec
import Geryon.Proto.KeyOps
import Geryon.Proto.Api

/-!
# The wire formats of the public API

`proto/envelope.c`: the typed envelope, the parsers of published bundles, the batches of one-time
prekeys and the certificates of application signing keys. A parser checks structure only.

Each format is a frame start followed by fixed-width fields, and its fields are a `Codec`. What a
parser reads with a moving pointer is then what the codec of its fields reads.
-/

namespace Geryon

variable {β : Type} [Octet β] (desc : SuiteDesc β)

/-! ## The envelope -/

/-- `gy_envelope_put` into a buffer of `cap` bytes. -/
def gyEnvelopePut (cap : Nat) (suiteId msgType : UInt8) (inner : Bytes β) :
    Except GyErr (Bytes β) :=
  if msgType ≠ msgInit ∧ msgType ≠ msgDr then .error .arg
  else if cap < envelopeHdrLen + inner.length then .error .arg
  else
    .ok (Octet.ofByte wireVersion :: Octet.ofByte suiteId :: Octet.ofByte msgType :: inner)

/-- `gy_envelope_parse`: the message type and the inner message. -/
def gyEnvelopeParse (buf : Bytes β) (expectedSuite : UInt8) : Except GyErr (UInt8 × Bytes β) :=
  if buf.length < envelopeHdrLen then .error .arg
  else if octetAt buf 0 ≠ wireVersion then .error .arg
  else if octetAt buf 1 ≠ expectedSuite then .error .state
  else if octetAt buf 2 ≠ msgInit ∧ octetAt buf 2 ≠ msgDr then .error .arg
  else
    let inner := buf.drop envelopeHdrLen
    if inner.length < 2 ∨ octetAt inner 0 ≠ octetAt buf 0 ∨ octetAt inner 1 ≠ octetAt buf 1 then
      .error .arg
    else .ok (octetAt buf 2, inner)

/-! ## Keys

The readers return what they read and where the pointer stands afterwards. -/

/-- `get_key`. -/
def getKey (p : Bytes β) : PublicKey β × Bytes β :=
  let pkid := be32Get p
  let p := p.drop 4
  let curveType := octetAt p 0
  let p := p.drop 1
  (⟨pkid, curveType, p.take desc.curvePkLen⟩, p.drop desc.curvePkLen)

/-- `get_hpub`. -/
def getHpub (p : Bytes β) : HybridPublicKey β × Bytes β :=
  let (curve, p) := getKey desc p
  (⟨curve, p.take desc.kemPkLen⟩, p.drop desc.kemPkLen)

/-- Read `n` keys. -/
def getKeys {κ : Type} (get : Bytes β → κ × Bytes β) : Nat → Bytes β → List κ
  | 0, _ => []
  | n + 1, p => (get p).1 :: getKeys get n (get p).2

/-- The checks of the frame start in `envelope.c`, on a buffer long enough to hold one. -/
def frameStart (buf : Bytes β) : Except GyErr Unit :=
  if octetAt buf 0 ≠ wireVersion then .error .arg
  else if octetAt buf 1 ≠ desc.suiteId then .error .state
  else .ok ()

/-! ## Bundles -/

/-- A key structure of zero bytes. -/
def PublicKey.zero : PublicKey β := ⟨0, 0, zeros desc.curvePkLen⟩

/-- `gy_bundle_parse`. -/
def gyBundleParse (buf : Bytes β) : Except GyErr (PrekeyBundle β) :=
  let need := gyBundleWireLen desc false
  if buf.length < need then .error .arg
  else do
    frameStart desc buf
    let p := buf.drop 2
    let (ik, p) := getKey desc p
    let (spk, p) := getKey desc p
    let spkTimestamp := be64Get p
    let p := p.drop 8
    let spkSig := p.take desc.sigLen
    let p := p.drop desc.sigLen
    let present := octetAt p 0
    let p := p.drop 1
    -- any octet but zero stands for a one-time prekey
    if present ≠ 0 then
      if buf.length < need + (4 + 1 + desc.curvePkLen) then .error .arg
      else
        let (opk, p) := getKey desc p
        if p.length ≠ 0 then .error .arg else .ok ⟨ik, spk, spkTimestamp, spkSig, opk⟩
    else if p.length ≠ 0 then .error .arg
    else .ok ⟨ik, spk, spkTimestamp, spkSig, PublicKey.zero desc⟩

/-- `gy_hybrid_bundle_parse`. -/
def gyHybridBundleParse (buf : Bytes β) : Except GyErr (HybridPrekeyBundle β) :=
  if !desc.isHybrid then .error .state
  else if buf.length ≠ gyHybridBundleWireLen desc then .error .arg
  else do
    frameStart desc buf
    let p := buf.drop 2
    let (ikBase, p) := getHpub desc p
    let mldsaPk := p.take desc.dsaPkLen
    let p := p.drop desc.dsaPkLen
    let (spk, p) := getHpub desc p
    let spkIkId := be32Get p
    let p := p.drop 4
    let spkTimestamp := be64Get p
    let p := p.drop 8
    let spkFlags := be64Get p
    let p := p.drop 8
    let spkEdSig := p.take desc.sigLen
    let p := p.drop desc.sigLen
    let spkMldsaSig := p.take desc.dsaSigLen
    let p := p.drop desc.dsaSigLen
    -- the one-time prekey is always there, with a zero id when it is absent
    let (opk, _) := getHpub desc p
    .ok ⟨⟨ikBase, mldsaPk⟩, spk, spkTimestamp, spkFlags, spkIkId, spkEdSig, spkMldsaSig, opk⟩

/-! ## Batches of one-time prekeys -/

/-- `gy_opk_batch_wire_len`. -/
def gyOpkBatchWireLen (n : Nat) : Nat := 2 + 2 + n * (4 + 1 + desc.curvePkLen)

/-- `gy_opk_batch_put`. -/
def gyOpkBatchPut (cap : Nat) (keys : List (PublicKey β)) : Except GyErr (Bytes β) :=
  if cap < gyOpkBatchWireLen desc keys.length then .error .arg
  else if 0xffff < keys.length then .error .toolong
  else
    .ok (gyFramePut desc.suiteId ++
      (be16Put (UInt16.ofNat keys.length) ++ keys.flatMap (putKey desc)))

/-- `gy_opk_batch_parse` into an array of `outCap` keys. -/
def gyOpkBatchParse (outCap : Nat) (buf : Bytes β) : Except GyErr (List (PublicKey β)) :=
  if buf.length < 4 then .error .arg
  else do
    frameStart desc buf
    let count := (be16Get (buf.drop 2)).toNat
    if outCap < count then .error .toolong
    else if buf.length ≠ 4 + count * (4 + 1 + desc.curvePkLen) then .error .arg
    else .ok (getKeys (getKey desc) count (buf.drop 4))

/-- `gy_hybrid_opk_batch_wire_len`. -/
def gyHybridOpkBatchWireLen (n : Nat) : Nat :=
  2 + 2 + n * (4 + 1 + desc.curvePkLen + desc.kemPkLen)

/-- `gy_hybrid_opk_batch_put`. -/
def gyHybridOpkBatchPut (cap : Nat) (keys : List (HybridPublicKey β)) : Except GyErr (Bytes β) :=
  if !desc.isHybrid then .error .state
  else if 0xffff < keys.length then .error .toolong
  else if cap < gyHybridOpkBatchWireLen desc keys.length then .error .arg
  else
    .ok (gyFramePut desc.suiteId ++
      (be16Put (UInt16.ofNat keys.length) ++ keys.flatMap (putHpub desc)))

/-- `gy_hybrid_opk_batch_parse` into an array of `outCap` keys. -/
def gyHybridOpkBatchParse (outCap : Nat) (buf : Bytes β) :
    Except GyErr (List (HybridPublicKey β)) :=
  if !desc.isHybrid then .error .state
  else if buf.length < 4 then .error .arg
  else do
    frameStart desc buf
    let count := (be16Get (buf.drop 2)).toNat
    if outCap < count then .error .toolong
    else if buf.length ≠ 4 + count * (4 + 1 + desc.curvePkLen + desc.kemPkLen) then .error .arg
    else .ok (getKeys (getHpub desc) count (buf.drop 4))

/-! ## Certificates of application signing keys -/

/-- The fields of a certificate. -/
structure AppkeyCert (β : Type) where
  sakPub : PublicKey β
  issuedAt : UInt64
  expiry : UInt64
  identityPkid : UInt32
  identitySig : Bytes β

/-- `gy_appkey_cert_wire_len`. -/
def gyAppkeyCertWireLen : Nat :=
  1 + 1 + (4 + 1 + desc.curvePkLen) + 8 + 8 + 4 + desc.sigLen

/-- `gy_appkey_cert_put`. -/
def gyAppkeyCertPut (cap : Nat) (cert : AppkeyCert β) : Except GyErr (Bytes β) :=
  if cap < gyAppkeyCertWireLen desc then .error .arg
  else
    .ok (gyFramePut desc.suiteId ++ (putKey desc cert.sakPub ++ (be64Put cert.issuedAt ++
      (be64Put cert.expiry ++ (be32Put cert.identityPkid ++ cert.identitySig.take desc.sigLen)))))

/-- `gy_appkey_cert_parse`. -/
def gyAppkeyCertParse (buf : Bytes β) : Except GyErr (AppkeyCert β) :=
  if buf.length ≠ gyAppkeyCertWireLen desc then .error .arg
  else do
    frameStart desc buf
    let p := buf.drop 2
    let (sakPub, p) := getKey desc p
    let issuedAt := be64Get p
    let p := p.drop 8
    let expiry := be64Get p
    let p := p.drop 8
    let identityPkid := be32Get p
    let p := p.drop 4
    .ok ⟨sakPub, issuedAt, expiry, identityPkid, p.take desc.sigLen⟩

/-- The fields of a hybrid certificate. -/
structure HybridAppkeyCert (β : Type) where
  sakCurvePub : PublicKey β
  sakMldsaPk : Bytes β
  issuedAt : UInt64
  expiry : UInt64
  identityPkid : UInt32
  identityEdSig : Bytes β
  identityMldsaSig : Bytes β

/-- `gy_hybrid_appkey_cert_wire_len`. -/
def gyHybridAppkeyCertWireLen : Nat :=
  1 + 1 + (4 + 1 + desc.curvePkLen) + desc.dsaPkLen + 8 + 8 + 4 + desc.sigLen + desc.dsaSigLen

/-- `gy_hybrid_appkey_cert_put`. -/
def gyHybridAppkeyCertPut (cap : Nat) (cert : HybridAppkeyCert β) : Except GyErr (Bytes β) :=
  if !desc.isHybrid then .error .state
  else if cap < gyHybridAppkeyCertWireLen desc then .error .arg
  else
    .ok (gyFramePut desc.suiteId ++ (putKey desc cert.sakCurvePub ++
      (cert.sakMldsaPk.take desc.dsaPkLen ++ (be64Put cert.issuedAt ++ (be64Put cert.expiry ++
        (be32Put cert.identityPkid ++ (cert.identityEdSig.take desc.sigLen ++
          cert.identityMldsaSig.take desc.dsaSigLen)))))))

/-- `gy_hybrid_appkey_cert_parse`. -/
def gyHybridAppkeyCertParse (buf : Bytes β) : Except GyErr (HybridAppkeyCert β) :=
  if !desc.isHybrid then .error .state
  else if buf.length ≠ gyHybridAppkeyCertWireLen desc then .error .arg
  else do
    frameStart desc buf
    let p := buf.drop 2
    let (sakCurvePub, p) := getKey desc p
    let sakMldsaPk := p.take desc.dsaPkLen
    let p := p.drop desc.dsaPkLen
    let issuedAt := be64Get p
    let p := p.drop 8
    let expiry := be64Get p
    let p := p.drop 8
    let identityPkid := be32Get p
    let p := p.drop 4
    let identityEdSig := p.take desc.sigLen
    let p := p.drop desc.sigLen
    .ok ⟨sakCurvePub, sakMldsaPk, issuedAt, expiry, identityPkid, identityEdSig,
      p.take desc.dsaSigLen⟩

end Geryon
