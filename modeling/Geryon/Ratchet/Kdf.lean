import Geryon.Lib.Cmd
import Geryon.Ratchet.SkipStore

/-!
# Ratchet key derivations and header encryption

The suite-agnostic derivations of `ratchet/dr_common.c`, the skip-forward loop that stores the
message keys it passes, and the header encryption of `ratchet/he.c`.
-/

namespace Geryon

/-- `GY_DR_RK_OUT_LEN`: new root key, chain key and next header key. -/
def drRkOutLen : Nat := 96

/-- `GY_HE_SALT_LEN`. -/
def heSaltLen : Nat := 16

variable {β : Type} [Octet β] (desc : SuiteDesc β)

/-- The outputs of one root-key derivation. -/
structure RootKeys (β : Type) where
  rk : Bytes β
  ck : Bytes β
  nhk : Bytes β

/-- `gy_drc_kdf_rk`: HKDF with the root key as salt, split into three keys. -/
def gyDrcKdfRk (rk ikm : Bytes β) : Except GyErr (RootKeys β) := do
  let prk ← desc.hkdfExtract rk ikm
  let info ← gyInfo desc infoMax "dr.root"
  let okm ← desc.hkdfExpand drRkOutLen prk info
  return ⟨okm.take 32, (okm.drop 32).take 32, (okm.drop 64).take 32⟩

/-- `kdf_ck_one`: one purpose of the symmetric-key ratchet. -/
def kdfCkOne (ck : Bytes β) (purpose : String) : Except GyErr (Bytes β) := do
  let info ← gyInfo desc infoMax purpose
  gyKdfCtr desc 32 ck info []

/-- `gy_drc_kdf_ck`: the message key and the next chain key. -/
def gyDrcKdfCk (ck : Bytes β) : Except GyErr (Bytes β × Bytes β) := do
  let mk ← kdfCkOne desc ck "dr.msg"
  let ckNext ← kdfCkOne desc ck "dr.chain"
  return (mk, ckNext)

/-- The derivation shared by `gy_drc_derive_aead` and `he_derive`: an AEAD key and nonce from a
key, for a purpose and a context. -/
def deriveKeyNonce (key : Bytes β) (aeadId : UInt8) (purpose : String) (context : Bytes β) :
    Except GyErr (Bytes β × Bytes β) :=
  if aeadNonceLen aeadId = 0 then .error .unsupported
  else do
    let info ← gyInfo desc infoMax purpose
    let buf ← gyKdfCtr desc (32 + aeadNonceLen aeadId) key info (Octet.ofByte aeadId :: context)
    return (buf.take 32, buf.drop 32)

/-- `gy_drc_derive_aead`: key and nonce of message number `n`. -/
def gyDrcDeriveAead (mk : Bytes β) (aeadId : UInt8) (n : UInt32) :
    Except GyErr (Bytes β × Bytes β) :=
  deriveKeyNonce desc mk aeadId "dr.aead" (be32Put n)

/-- `he_derive`: key and nonce of a header under a salt. -/
def heDerive (aeadId : UInt8) (hk salt : Bytes β) : Except GyErr (Bytes β × Bytes β) :=
  deriveKeyNonce desc hk aeadId "he.aead" salt

section HeaderEncryption

variable [Sodium β]

/-- `gy_he_encrypt` into a buffer of `cap` bytes: the salt and the encrypted header. `salt` is what
the random source returned. -/
def gyHeEncrypt (aeadId : UInt8) (hk header ad2 : Bytes β) (cap : Nat)
    (salt : Except GyErr (Bytes β)) : Except GyErr (Bytes β × Bytes β) :=
  if aeadTagLen aeadId = 0 then .error .unsupported
  else if cap < header.length + aeadTagLen aeadId then .error .arg
  else do
    let salt ← salt
    let (key, nonce) ← heDerive desc aeadId hk salt
    let enc ← gyAeadEncrypt aeadId cap key nonce ad2 header
    return (salt, enc)

/-- `gy_he_decrypt` into a buffer of `cap` bytes. -/
def gyHeDecrypt (aeadId : UInt8) (hk salt enc ad2 : Bytes β) (cap : Nat) :
    Except GyErr (Bytes β) :=
  if aeadTagLen aeadId = 0 then .error .unsupported
  else if enc.length < aeadTagLen aeadId then .error .verify
  else do
    let (key, nonce) ← heDerive desc aeadId hk salt
    gyAeadDecrypt aeadId cap key nonce ad2 enc

end HeaderEncryption

/-! ## Advancing a receiving chain -/

/-- What `gy_drc_skip_forward` updates in place: the skipped keys, a chain key and its counter. -/
structure RecvChain (β : Type) where
  store : SkipStore β
  ck : Bytes β
  nr : UInt32

variable [DecidableEq β]

/-- One pass of the loop of `gy_drc_skip_forward`. -/
def skipOne (hk : Bytes β) : Cmd GyErr (RecvChain β) Unit := do
  let c ← Cmd.get
  let (mk, ckNext) ← Cmd.lift (gyDrcKdfCk desc c.ck)
  Cmd.modify fun c => ⟨storeInsert c.store hk c.nr mk, ckNext, c.nr + 1⟩

/-- `k` passes of the loop of `gy_drc_skip_forward`. -/
def skipMany (hk : Bytes β) : Nat → Cmd GyErr (RecvChain β) Unit
  | 0 => pure ()
  | k + 1 => do
    skipOne desc hk
    skipMany hk k

/-- `gy_drc_skip_forward`: advance the chain to message number `to_`, storing the keys it passes
under the header key `hk`. The loop condition `nr < to` gives `to - nr` passes, or none. -/
def gyDrcSkipForward (to_ : UInt32) (hk : Bytes β) : Cmd GyErr (RecvChain β) Unit := fun c =>
  skipMany desc hk (to_.toNat - c.nr.toNat) c

end Geryon
