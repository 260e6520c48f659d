import Geryon.Basic

/-!
# Suite descriptor, AEAD wrappers and key derivation

The indirection of `core/suite.h` through which the key agreement and the ratchets reach a suite's
sizes and primitives, the AEAD dispatch of `core/aead.c`, the counter-mode derivation of
`core/kdf.c` and the wire helpers of `core/encode.c`.

The primitives themselves (libsodium, the curve, hash, KEM and signature code) are parameters.
Every descriptor operation may fail with a code, as its C prototype allows. A randomised primitive
takes its random input as an argument; a generator's result is an argument of the function that
calls the generator.
-/

namespace Geryon

/-- `GY_DR_KEY_LEN`: root, chain, header and message keys. -/
def drKeyLen : Nat := 32

/-- `GY_WIRE_VERSION`. -/
def wireVersion : UInt8 := 1

/-- `GY_DR_INFO_MAX` and the `GY_INFO_MAX` of `he.c`: the info-string buffers. -/
def infoMax : Nat := 48

/-- `GY_CURVE_PK_MAX`. -/
def curvePkMax : Nat := 56

/-- `GY_KEM_EK_MAX`. -/
def kemEkMax : Nat := 1568

/-- `GY_KEM_CT_MAX`. -/
def kemCtMax : Nat := 1568

/-- The three AEADs of `core/aead.h`. -/
inductive AeadAlg where
  | chacha20poly1305 | aes256gcm | aegis256
  deriving DecidableEq, Repr

/-- The AEAD an `aead_id` byte names, if any. -/
def aeadAlg (id : UInt8) : Option AeadAlg :=
  if id = 1 then some .chacha20poly1305
  else if id = 2 then some .aes256gcm
  else if id = 3 then some .aegis256
  else none

/-- Nonce length of an AEAD. -/
def AeadAlg.nonceLen : AeadAlg → Nat
  | .chacha20poly1305 => 12
  | .aes256gcm => 12
  | .aegis256 => 32

/-- Tag length of an AEAD. -/
def AeadAlg.tagLen : AeadAlg → Nat
  | .chacha20poly1305 => 16
  | .aes256gcm => 16
  | .aegis256 => 32

/-- `gy_aead_nonce_len`: `0` for an unknown identifier. -/
def aeadNonceLen (id : UInt8) : Nat := (aeadAlg id).elim 0 AeadAlg.nonceLen

/-- `gy_aead_tag_len`: `0` for an unknown identifier. -/
def aeadTagLen (id : UInt8) : Nat := (aeadAlg id).elim 0 AeadAlg.tagLen

/-- What the linked libsodium provides: the AEADs of `crypto_aead_*` and SHA-512. -/
class Sodium (β : Type) where
  /-- `crypto_aead_aes256gcm_is_available`. -/
  aes256gcmAvailable : Bool
  /-- `crypto_aead_*_encrypt` on key, nonce, associated data and plaintext; `none` is a failure. -/
  aeadEncrypt : AeadAlg → Bytes β → Bytes β → Bytes β → Bytes β → Option (Bytes β)
  /-- `crypto_aead_*_decrypt` on key, nonce, associated data and ciphertext. -/
  aeadDecrypt : AeadAlg → Bytes β → Bytes β → Bytes β → Bytes β → Option (Bytes β)
  /-- `crypto_hash_sha512`. -/
  sha512 : Bytes β → Bytes β
  length_sha512 : ∀ b, (sha512 b).length = 64

/-- A row of the suite table: `struct gy_suite_desc`. Multi-part hash inputs arrive concatenated. -/
structure SuiteDesc (β : Type) where
  /-- `GY_SUITE_*` wire byte. -/
  suiteId : UInt8
  /-- `GY_CURVE_TYPE_*`, which is also the length of a curve public key. -/
  curveType : UInt8
  /-- Whether the suite is hybrid. -/
  isHybrid : Bool
  /-- The suite's name in info strings. -/
  name : String
  curvePkLen : Nat
  curveSkLen : Nat
  dhLen : Nat
  sigLen : Nat
  hashLen : Nat
  fLen : Nat
  /-- `dh(sk, peer_pk)`. -/
  dh : Bytes β → Bytes β → Except GyErr (Bytes β)
  /-- `verify(sig, pk, msg)`. -/
  verify : Bytes β → Bytes β → Bytes β → Except GyErr Unit
  /-- `hash(in)`. -/
  hash : Bytes β → Except GyErr (Bytes β)
  /-- `hmac(key, msg)`. -/
  hmac : Bytes β → Bytes β → Except GyErr (Bytes β)
  /-- `hkdf_extract(salt, ikm)`. -/
  hkdfExtract : Bytes β → Bytes β → Except GyErr (Bytes β)
  /-- `hkdf_expand(outlen, prk, info)`. -/
  hkdfExpand : Nat → Bytes β → Bytes β → Except GyErr (Bytes β)
  kemPkLen : Nat
  kemSkLen : Nat
  kemCtLen : Nat
  kemSsLen : Nat
  dsaPkLen : Nat
  dsaSigLen : Nat
  /-- `kem_encap(ek)` under the given coins: ciphertext and shared secret. -/
  kemEncap : Bytes β → Bytes β → Except GyErr (Bytes β × Bytes β)
  /-- `kem_decap(ct, dk)`. -/
  kemDecap : Bytes β → Bytes β → Except GyErr (Bytes β)
  /-- `dsa_verify(sig, pk, msg, ctx)`. -/
  dsaVerify : Bytes β → Bytes β → Bytes β → Bytes β → Except GyErr Unit
  hashLen_ge : 32 ≤ hashLen
  /-- The hash fills its output buffer. -/
  length_hash : ∀ {b h}, hash b = .ok h → h.length = hashLen

/-- A curve key pair (`struct gy_keypair`): public key and secret scalar. -/
structure Keypair (β : Type) where
  pk : Bytes β
  sk : Bytes β
  deriving DecidableEq

variable {β : Type} [Octet β]

section Aead

variable [Sodium β]

/-- `gy_aead_encrypt` into a buffer of `cap` bytes. -/
def gyAeadEncrypt (id : UInt8) (cap : Nat) (key nonce ad pt : Bytes β) :
    Except GyErr (Bytes β) :=
  match aeadAlg id with
  | none => .error .arg
  | some a =>
    if nonce.length ≠ a.nonceLen then .error .arg
    else if a = .aes256gcm ∧ Sodium.aes256gcmAvailable β = false then .error .unsupported
    else if cap < pt.length + a.tagLen then .error .arg
    else
      match Sodium.aeadEncrypt a key nonce ad pt with
      | none => .error .crypto
      | some ct => .ok ct

/-- `gy_aead_decrypt` into a buffer of `cap` bytes. A tag failure and any other provider failure
are the same code. -/
def gyAeadDecrypt (id : UInt8) (cap : Nat) (key nonce ad ct : Bytes β) :
    Except GyErr (Bytes β) :=
  match aeadAlg id with
  | none => .error .arg
  | some a =>
    if nonce.length ≠ a.nonceLen then .error .arg
    else if a = .aes256gcm ∧ Sodium.aes256gcmAvailable β = false then .error .unsupported
    else if ct.length < a.tagLen then .error .verify
    else if cap < ct.length - a.tagLen then .error .arg
    else
      match Sodium.aeadDecrypt a key nonce ad ct with
      | none => .error .verify
      | some pt => .ok pt

end Aead

variable (desc : SuiteDesc β)

/-- The loop of `gy_kdf_ctr_raw`: `need` bytes are still to be produced and `counter` numbers the
next block. Each pass produces at least one byte, so `need` passes are enough. -/
def kdfCtrBlocks (key fixed : Bytes β) : Nat → UInt32 → Nat → Except GyErr (Bytes β)
  | 0, _, _ => .ok []
  | fuel + 1, counter, need =>
    if need = 0 then .ok []
    else do
      let block ← desc.hmac key (be32Put counter ++ fixed)
      let rest ← kdfCtrBlocks key fixed fuel (counter + 1) (need - min need desc.hashLen)
      return block.take (min need desc.hashLen) ++ rest

/-- `gy_kdf_ctr`: SP 800-108 counter mode over the suite's HMAC. -/
def gyKdfCtr (outlen : Nat) (key label context : Bytes β) : Except GyErr (Bytes β) :=
  if outlen = 0 ∨ 255 * desc.hashLen < outlen then .error .arg
  else
    kdfCtrBlocks desc key
      (label ++ [Octet.ofByte 0] ++ context ++ be32Put (UInt32.ofNat (outlen * 8))) outlen 1 outlen

/-- `gy_info`: the info string `geryon.1.<suite>.<purpose>` in a buffer of `cap` bytes. -/
def gyInfo (cap : Nat) (purpose : String) : Except GyErr (Bytes β) :=
  if cap < 6 + 1 + 1 + 1 + desc.name.length + 1 + purpose.length then .error .toolong
  else .ok (ascii "geryon" ++ ascii "." ++ ascii "1" ++ ascii "." ++ ascii desc.name ++
    ascii "." ++ ascii purpose)

/-- `gy_frame_put`: the two-byte frame start `version || suite_id`. -/
def gyFramePut (suiteId : UInt8) : Bytes β := [Octet.ofByte wireVersion, Octet.ofByte suiteId]

/-- `gy_frame_check`: a version mismatch is malformed, a suite mismatch is a cross-suite message. -/
def gyFrameCheck (buf : Bytes β) (expectedSuite : UInt8) : Except GyErr Unit :=
  if buf.length < 2 then .error .arg
  else if byteAt buf 0 ≠ wireVersion.toNat then .error .arg
  else if byteAt buf 1 ≠ expectedSuite.toNat then .error .state
  else .ok ()

@[simp] theorem length_gyFramePut (suiteId : UInt8) :
    (gyFramePut suiteId : Bytes β).length = 2 := rfl

/-- A frame is accepted by a receiver of the suite it was made for. -/
@[simp] theorem gyFrameCheck_gyFramePut (suiteId : UInt8) (rest : Bytes β) :
    gyFrameCheck (gyFramePut suiteId ++ rest) suiteId = .ok () := by
  simp [gyFrameCheck, gyFramePut, byteAt]

end Geryon
