import Geryon.Symbolic
import Geryon.Lib.Cmd

/-!
# Sealing and the key-encryption key

`core/seal.c`, `core/pwhash.c`, `core/kekprot.c` and `session/keystore.c`: a sealed blob is
`version || alg || nonce || ciphertext`, and the key-encryption key of a custodian is sealed under a
key derived from the credential, behind the salt and the cost parameters of that derivation.

The AEADs and the password hash are primitives; a source of random bytes answers each request with
that many bytes or fails.

## Main results

- `gySeal_ok`, `gyUnseal_blob`: what a seal returns, and what such a blob unseals to.
- `gyUnseal_gySeal`: what was sealed is unsealed under the same key and associated data.
- `gyKeystoreOpen_wrap`: the credential a wrap was made under opens it.
-/

namespace Geryon

/-- `GY_SEAL_VERSION`. -/
def sealVersion : UInt8 := 1

/-- `GY_SEAL_ALG_AEGIS256`. -/
def sealAlgAegis256 : UInt8 := 0x11

/-- `GY_SEAL_ALG_XCHACHA20POLY1305`. -/
def sealAlgXchacha20poly1305 : UInt8 := 0x12

/-- `GY_SEAL_MAX_AD`. -/
def sealMaxAd : Nat := 96

/-- `GY_SEAL_MAX_OVERHEAD`. -/
def sealMaxOverhead : Nat := 66

/-- `GY_KEKPROT_KEK_LEN`. -/
def kekprotKekLen : Nat := 32

/-- `GY_PWHASH_SALT_LEN`. -/
def pwhashSaltLen : Nat := 16

/-- `GY_KEKPROT_HDR_LEN`. -/
def kekprotHdrLen : Nat := pwhashSaltLen + 4 + 8

/-- `GY_KEYSTORE_WRAP_MAX`. -/
def keystoreWrapMax : Nat := kekprotHdrLen + sealMaxOverhead + kekprotKekLen

/-- `GY_PWHASH_OPSLIMIT_MIN`. -/
def pwhashOpslimitMin : UInt32 := 3

/-- `GY_PWHASH_OPSLIMIT_MAX`. -/
def pwhashOpslimitMax : UInt32 := 4

/-- `GY_PWHASH_MEMLIMIT_MIN`. -/
def pwhashMemlimitMin : Nat := 268435456

/-- `GY_PWHASH_MEMLIMIT_MAX`. -/
def pwhashMemlimitMax : Nat := 1073741824

/-- The two wrap algorithms of `core/seal.h`. -/
inductive SealAlg where
  | aegis256 | xchacha20poly1305
  deriving DecidableEq, Repr

/-- Nonce length of a wrap algorithm. -/
def SealAlg.nonceLen : SealAlg → Nat
  | .aegis256 => aeadNonceLen 3
  | .xchacha20poly1305 => 24

/-- Tag length of a wrap algorithm. -/
def SealAlg.tagLen : SealAlg → Nat
  | .aegis256 => aeadTagLen 3
  | .xchacha20poly1305 => 16

/-- `seal_alg_lengths`: the algorithm an identifier names, if any. -/
def sealAlg (id : UInt8) : Option SealAlg :=
  if id = sealAlgAegis256 then some .aegis256
  else if id = sealAlgXchacha20poly1305 then some .xchacha20poly1305
  else none

/-- What the linked libsodium provides for key storage: XChaCha20-Poly1305 and Argon2id. -/
class SodiumKeystore (β : Type) where
  /-- `crypto_aead_xchacha20poly1305_ietf_encrypt` on key, nonce, associated data and plaintext. -/
  xchachaEncrypt : Bytes β → Bytes β → Bytes β → Bytes β → Option (Bytes β)
  /-- `crypto_aead_xchacha20poly1305_ietf_decrypt`. -/
  xchachaDecrypt : Bytes β → Bytes β → Bytes β → Bytes β → Option (Bytes β)
  /-- `crypto_pwhash` with output length, credential, salt and the two limits. -/
  pwhash : Nat → Bytes β → Bytes β → UInt32 → Nat → Option (Bytes β)

/-- `gy_random_bytes`: the answer to a request for `n` bytes. -/
abbrev Rng (β : Type) := (n : Nat) → Except GyErr { b : Bytes β // b.length = n }

variable {β : Type} [Octet β] [Sodium β] [SodiumKeystore β]

/-! ## Sealed blobs -/

/-- The first two bytes of a sealed blob, which its associated data repeats. -/
def sealHdr (algId : UInt8) : Bytes β := [Octet.ofByte sealVersion, Octet.ofByte algId]

/-- `gy_seal` into a buffer of `cap` bytes. -/
def gySeal (cap : Nat) (key : Bytes β) (algId : UInt8) (ad pt : Bytes β) (nonce : Rng β) :
    Except GyErr (Bytes β) :=
  if sealMaxAd < ad.length then .error .toolong
  else
    match sealAlg algId with
    | none => .error .arg
    | some alg =>
      if cap < 2 + alg.nonceLen + pt.length + alg.tagLen then .error .arg
      else do
        let n ← nonce alg.nonceLen
        match alg with
        | .aegis256 => do
          -- version and algorithm are authenticated with the caller's data
          let ct ← gyAeadEncrypt 3 (cap - 2 - alg.nonceLen) key n.1 (sealHdr algId ++ ad) pt
          return sealHdr algId ++ (n.1 ++ ct)
        | .xchacha20poly1305 =>
          match SodiumKeystore.xchachaEncrypt key n.1 (sealHdr algId ++ ad) pt with
          | none => .error .crypto
          | some ct => .ok (sealHdr algId ++ (n.1 ++ ct))

/-- `gy_unseal` into a buffer of `cap` bytes. -/
def gyUnseal (cap : Nat) (key ad blob : Bytes β) : Except GyErr (Bytes β) :=
  if sealMaxAd < ad.length then .error .toolong
  else if blob.length < 2 then .error .verify
  else if byteAt blob 0 ≠ sealVersion.toNat then .error .verify
  else
    -- every malformed blob is one error to the caller
    match sealAlg (UInt8.ofNat (byteAt blob 1)) with
    | none => .error .verify
    | some alg =>
      if blob.length < 2 + alg.nonceLen + alg.tagLen then .error .verify
      else
        let nonce := (blob.drop 2).take alg.nonceLen
        let ct := blob.drop (2 + alg.nonceLen)
        let fullAd := sealHdr (UInt8.ofNat (byteAt blob 1)) ++ ad
        match alg with
        | .aegis256 => gyAeadDecrypt 3 cap key nonce fullAd ct
        | .xchacha20poly1305 =>
          -- the buffer is checked only here: the other cipher checks its own
          if cap < ct.length - alg.tagLen then .error .arg
          else
            match SodiumKeystore.xchachaDecrypt key nonce fullAd ct with
            | none => .error .verify
            | some pt => .ok pt

/-- `gy_pwhash_derive` of a 32-byte key. -/
def gyPwhashDerive (cred salt : Bytes β) (opslimit : UInt32) (memlimit : Nat) :
    Except GyErr (Bytes β) :=
  if opslimit < pwhashOpslimitMin ∨ pwhashOpslimitMax < opslimit then .error .arg
  else if memlimit < pwhashMemlimitMin ∨ pwhashMemlimitMax < memlimit then .error .arg
  else
    match SodiumKeystore.pwhash 32 cred salt opslimit memlimit with
    | none => .error .crypto
    | some pdk => .ok pdk

/-! ## The wrapped key-encryption key -/

/-- The random input of a wrap. -/
structure WrapRand (β : Type) where
  salt : Rng β
  nonce : Rng β

/-- `gy_kekprot_wrap`, which every caller gives a buffer of `GY_KEKPROT_MAX_BLOB` bytes. -/
def gyKekprotWrap (algId : UInt8) (opslimit : UInt32) (memlimit : Nat) (cred ad kek : Bytes β)
    (rnd : WrapRand β) : Except GyErr (Bytes β) := do
  let salt ← rnd.salt pwhashSaltLen
  let pdk ← gyPwhashDerive cred salt.1 opslimit memlimit
  let blob ← gySeal (keystoreWrapMax - kekprotHdrLen) pdk algId ad kek rnd.nonce
  return salt.1 ++ (be32Put opslimit ++ (be64Put (UInt64.ofNat memlimit) ++ blob))

/-- The key-encryption key sealed in a wrap. -/
def unsealKek (pdk ad sealed : Bytes β) : Except GyErr (Bytes β) := do
  let kek ← gyUnseal kekprotKekLen pdk ad sealed
  if kek.length ≠ kekprotKekLen then .error .verify else .ok kek

/-- `gy_kekprot_unwrap`. A parameter out of range is the same failure as a wrong credential. -/
def gyKekprotUnwrap (cred ad blob : Bytes β) : Except GyErr (Bytes β) :=
  if blob.length < kekprotHdrLen then .error .verify
  else
    let opslimit := be32Get (blob.drop pwhashSaltLen)
    let memlimit := (be64Get (blob.drop (pwhashSaltLen + 4))).toNat
    -- the cost comes out of the blob, so it is bounded before the hash is run
    if pwhashMemlimitMax < memlimit then .error .verify
    else
      match gyPwhashDerive cred (blob.take pwhashSaltLen) opslimit memlimit with
      -- a cost the hash refuses is a bad blob
      | .error .arg => .error .verify
      | .error e => .error e
      | .ok pdk => unsealKek pdk ad (blob.drop kekprotHdrLen)

/-! ## The keystore -/

/-- `gy_keystore_create`: a fresh key-encryption key and its wrap. -/
def gyKeystoreCreate (algId : UInt8) (opslimit : UInt32) (memlimit : Nat) (cred : Bytes β)
    (kekRand : Rng β) (rnd : WrapRand β) : Except GyErr (Bytes β × Bytes β) := do
  let kek ← kekRand kekprotKekLen
  let wrap ← gyKekprotWrap algId opslimit memlimit cred [] kek.1 rnd
  return (kek.1, wrap)

/-- `gy_keystore_open`: the key-encryption key of a wrap. -/
def gyKeystoreOpen (cred wrap : Bytes β) : Except GyErr (Bytes β) := gyKekprotUnwrap cred [] wrap

/-- `gy_keystore_change_credential`: a new wrap of the same key. -/
def gyKeystoreChangeCredential (kek : Bytes β) (algId : UInt8) (opslimit : UInt32) (memlimit : Nat)
    (cred : Bytes β) (rnd : WrapRand β) : Except GyErr (Bytes β) :=
  gyKekprotWrap algId opslimit memlimit cred [] kek rnd

/-! ## Round trips -/

/-- The encryption of a wrap algorithm. -/
def SealAlg.encrypt : SealAlg → Bytes β → Bytes β → Bytes β → Bytes β → Option (Bytes β)
  | .aegis256 => Sodium.aeadEncrypt .aegis256
  | .xchacha20poly1305 => SodiumKeystore.xchachaEncrypt

/-- The decryption of a wrap algorithm. -/
def SealAlg.decrypt : SealAlg → Bytes β → Bytes β → Bytes β → Bytes β → Option (Bytes β)
  | .aegis256 => Sodium.aeadDecrypt .aegis256
  | .xchacha20poly1305 => SodiumKeystore.xchachaDecrypt

/-- What sealing relies on: an AEGIS-256 ciphertext is its plaintext's length plus a tag, opens to
the plaintext, and under another key opens to nothing else. -/
structure SealLaws (β : Type) [Sodium β] : Prop where
  aegis : ∀ {key nonce ad pt ct : Bytes β},
    Sodium.aeadEncrypt .aegis256 key nonce ad pt = some ct →
      ct.length = pt.length + 32 ∧ Sodium.aeadDecrypt .aegis256 key nonce ad ct = some pt
  aegis_unique : ∀ {key key' nonce ad pt pt' ct : Bytes β},
    Sodium.aeadEncrypt .aegis256 key nonce ad pt = some ct →
      Sodium.aeadDecrypt .aegis256 key' nonce ad ct = some pt' → pt' = pt

@[simp] theorem sealAlg_aegis256 : sealAlg sealAlgAegis256 = some .aegis256 := rfl

omit [Sodium β] [SodiumKeystore β] in
@[simp] theorem length_sealHdr (algId : UInt8) : (sealHdr algId : Bytes β).length = 2 := rfl

omit [Octet β] [SodiumKeystore β] in
/-- The AEGIS-256 encryption that succeeded. -/
theorem gyAeadEncrypt_aegis {cap : Nat} {key nonce ad pt ct : Bytes β}
    (h : gyAeadEncrypt 3 cap key nonce ad pt = .ok ct) :
    nonce.length = 32 ∧ Sodium.aeadEncrypt .aegis256 key nonce ad pt = some ct := by
  simp only [gyAeadEncrypt, aeadAlg, AeadAlg.nonceLen] at h
  by_cases hn : nonce.length = 32
  · refine ⟨hn, ?_⟩
    simp only [hn] at h
    simp at h
    split at h
    · cases h
    · split at h
      · cases h
      · obtain rfl := Except.ok.inj h
        assumption
  · simp [hn] at h

omit [Octet β] [SodiumKeystore β] in
/-- What AEGIS-256 decryption does with a nonce and a ciphertext of the right shape. -/
theorem gyAeadDecrypt_aegis {cap : Nat} {key nonce ad ct : Bytes β} (hn : nonce.length = 32)
    (hct : 32 ≤ ct.length) : gyAeadDecrypt 3 cap key nonce ad ct =
      if cap < ct.length - 32 then .error .arg
      else
        match Sodium.aeadDecrypt .aegis256 key nonce ad ct with
        | none => .error .verify
        | some pt => .ok pt := by
  have halg : aeadAlg 3 = some .aegis256 := rfl
  unfold gyAeadDecrypt
  rw [halg]
  dsimp only
  rw [if_neg (fun h => h hn), if_neg (fun h => (nomatch h.1)),
    if_neg (show ¬ ct.length < AeadAlg.aegis256.tagLen from hct.not_gt)]
  rfl

/-- The blob a seal returns: header, nonce and what the algorithm encrypts. -/
theorem gySeal_ok {cap : Nat} {key ad pt blob : Bytes β} {algId : UInt8} {nonce : Rng β}
    (h : gySeal cap key algId ad pt nonce = .ok blob) :
    ad.length ≤ sealMaxAd ∧ ∃ alg : SealAlg, ∃ n ct : Bytes β, sealAlg algId = some alg ∧
      n.length = alg.nonceLen ∧ alg.encrypt key n (sealHdr algId ++ ad) pt = some ct ∧
      blob = sealHdr algId ++ (n ++ ct) := by
  unfold gySeal at h
  by_cases had : sealMaxAd < ad.length
  · simp [had] at h
  rw [if_neg had] at h
  refine ⟨Nat.le_of_not_lt had, ?_⟩
  split at h
  · cases h
  · rename_i alg halg
    split at h
    · cases h
    · obtain ⟨n, -, h⟩ := Except.bind_eq_ok_iff.mp h
      cases alg with
      | aegis256 =>
        obtain ⟨ct, hct, h⟩ := Except.bind_eq_ok_iff.mp h
        obtain rfl := Except.ok.inj h
        exact ⟨_, n.1, ct, halg, n.2, (gyAeadEncrypt_aegis hct).2, rfl⟩
      | xchacha20poly1305 =>
        dsimp only at h
        split at h
        · cases h
        · rename_i ct hct
          obtain rfl := Except.ok.inj h
          exact ⟨_, n.1, ct, halg, n.2, hct, rfl⟩

/-- What a blob of the right shape unseals to is left to its algorithm. -/
theorem gyUnseal_blob {cap : Nat} {key ad n ct : Bytes β} {algId : UInt8} {alg : SealAlg}
    (halg : sealAlg algId = some alg) (had : ad.length ≤ sealMaxAd) (hn : n.length = alg.nonceLen)
    (hct : alg.tagLen ≤ ct.length) :
    gyUnseal cap key ad (sealHdr algId ++ (n ++ ct)) =
      if cap < ct.length - alg.tagLen then .error .arg
      else
        match alg.decrypt key n (sealHdr algId ++ ad) ct with
        | none => .error .verify
        | some pt => .ok pt := by
  have h0 : byteAt (sealHdr algId ++ (n ++ ct)) 0 = sealVersion.toNat := by simp [sealHdr, byteAt]
  have h1 : byteAt (sealHdr algId ++ (n ++ ct)) 1 = algId.toNat := by simp [sealHdr, byteAt]
  have hdrop : (sealHdr algId ++ (n ++ ct)).drop 2 = n ++ ct := by simp [sealHdr]
  have hdrop' : (sealHdr algId ++ (n ++ ct)).drop (2 + alg.nonceLen) = ct := by
    rw [← List.drop_drop, hdrop, ← hn, List.drop_left']
    rfl
  unfold gyUnseal
  rw [if_neg (by omega),
    if_neg (by simp only [sealHdr, List.length_append, List.length_cons]; omega),
    if_neg (by simp [h0]), h1]
  simp only [UInt8.ofNat_toNat, halg]
  rw [if_neg (by simp [hn]; omega), hdrop, hdrop', List.take_left' hn]
  cases alg with
  | aegis256 => exact gyAeadDecrypt_aegis hn hct
  | xchacha20poly1305 => rfl

/-- The blob an AEGIS-256 seal returns. -/
theorem gySeal_aegis {cap : Nat} {key ad pt blob : Bytes β} {nonce : Rng β}
    (h : gySeal cap key sealAlgAegis256 ad pt nonce = .ok blob) :
    ∃ n ct : Bytes β, n.length = 32 ∧
      Sodium.aeadEncrypt .aegis256 key n (sealHdr sealAlgAegis256 ++ ad) pt = some ct ∧
      blob = sealHdr sealAlgAegis256 ++ (n ++ ct) := by
  obtain ⟨-, alg, n, ct, halg, hn, henc, hblob⟩ := gySeal_ok h
  obtain rfl : SealAlg.aegis256 = alg := Option.some.inj halg
  exact ⟨n, ct, hn, henc, hblob⟩

/-- What an AEGIS-256 blob of the right shape unseals to is left to the AEAD. -/
theorem gyUnseal_aegis {cap : Nat} {key ad n ct : Bytes β} (had : ad.length ≤ sealMaxAd)
    (hn : n.length = 32) (hct : 32 ≤ ct.length) :
    gyUnseal cap key ad (sealHdr sealAlgAegis256 ++ (n ++ ct)) =
      if cap < ct.length - 32 then .error .arg
      else
        match Sodium.aeadDecrypt .aegis256 key n (sealHdr sealAlgAegis256 ++ ad) ct with
        | none => .error .verify
        | some pt => .ok pt :=
  gyUnseal_blob sealAlg_aegis256 had hn hct

/-- What was sealed is unsealed under the same key and associated data. -/
theorem gyUnseal_gySeal (laws : SealLaws β) {cap cap' : Nat} {key ad pt blob : Bytes β}
    {nonce : Rng β} (h : gySeal cap key sealAlgAegis256 ad pt nonce = .ok blob)
    (had : ad.length ≤ sealMaxAd) (hcap : pt.length ≤ cap') :
    gyUnseal cap' key ad blob = .ok pt := by
  obtain ⟨n, ct, hn, henc, rfl⟩ := gySeal_aegis h
  obtain ⟨hlen, hdec⟩ := laws.aegis henc
  rw [gyUnseal_aegis had hn (by omega), if_neg (by omega), hdec]

/-- A sealed blob is its plaintext's length plus the AEGIS-256 overhead. -/
theorem length_gySeal (laws : SealLaws β) {cap : Nat} {key ad pt blob : Bytes β} {nonce : Rng β}
    (h : gySeal cap key sealAlgAegis256 ad pt nonce = .ok blob) :
    blob.length = pt.length + sealMaxOverhead := by
  obtain ⟨n, ct, hn, henc, rfl⟩ := gySeal_aegis h
  have hlen := (laws.aegis henc).1
  simp [hn, hlen, sealMaxOverhead]
  omega

/-- The parts of a wrap, as an unwrap finds them. -/
structure WrapParts (cred kek wrap : Bytes β) where
  salt : Bytes β
  pdk : Bytes β
  blob : Bytes β
  nonce : Rng β
  hpdk : gyPwhashDerive cred salt pwhashOpslimitMin pwhashMemlimitMin = .ok pdk
  hblob : gySeal (keystoreWrapMax - kekprotHdrLen) pdk sealAlgAegis256 [] kek nonce = .ok blob
  hlen : wrap.length = kekprotHdrLen + blob.length
  hsalt : wrap.take pwhashSaltLen = salt
  hops : be32Get (wrap.drop pwhashSaltLen) = pwhashOpslimitMin
  hmem : (be64Get (wrap.drop (pwhashSaltLen + 4))).toNat = pwhashMemlimitMin
  hsealed : wrap.drop kekprotHdrLen = blob

/-- A wrap made with the custodian's limits has the parts an unwrap reads. -/
theorem gyKekprotWrap_parts {cred kek wrap : Bytes β} {rnd : WrapRand β}
    (h : gyKekprotWrap sealAlgAegis256 pwhashOpslimitMin pwhashMemlimitMin cred [] kek rnd =
      .ok wrap) : Nonempty (WrapParts cred kek wrap) := by
  obtain ⟨salt, -, h⟩ := Except.bind_eq_ok_iff.mp h
  obtain ⟨pdk, hpdk, h⟩ := Except.bind_eq_ok_iff.mp h
  obtain ⟨blob, hblob, h⟩ := Except.bind_eq_ok_iff.mp h
  have hwrap := (Except.ok.inj h).symm
  have hsalt : salt.1.length = 16 := salt.2
  have hd16 : wrap.drop pwhashSaltLen = be32Put pwhashOpslimitMin ++
      (be64Put (UInt64.ofNat pwhashMemlimitMin) ++ blob) := drop_field salt.1 hwrap hsalt
  have hd20 : wrap.drop (pwhashSaltLen + 4) = be64Put (UInt64.ofNat pwhashMemlimitMin) ++ blob :=
    drop_next hd16 rfl
  have hd28 : wrap.drop kekprotHdrLen = blob := drop_next hd20 rfl
  refine ⟨⟨salt.1, pdk, blob, rnd.nonce, hpdk, hblob, ?_, ?_, ?_, ?_, hd28⟩⟩
  · simp [hwrap, hsalt, kekprotHdrLen, pwhashSaltLen]
    omega
  · rw [hwrap]
    exact List.take_left' hsalt
  · rw [hd16, be32Get_be32Put]
  · rw [hd20, be64Get_be64Put]
    decide

/-- An unwrap reads the parts of a wrap. -/
theorem gyKeystoreOpen_parts {cred cred' kek wrap : Bytes β} (p : WrapParts cred kek wrap) :
    gyKeystoreOpen cred' wrap =
      match gyPwhashDerive cred' p.salt pwhashOpslimitMin pwhashMemlimitMin with
      | .error .arg => .error .verify
      | .error e => .error e
      | .ok pdk => unsealKek pdk [] p.blob := by
  have hlen := p.hlen
  unfold gyKeystoreOpen gyKekprotUnwrap
  rw [if_neg (by omega)]
  simp only [p.hops, p.hmem, p.hsalt, p.hsealed]
  rw [if_neg (by decide)]

/-- The credential a wrap was made under opens it. -/
theorem gyKeystoreOpen_wrap (laws : SealLaws β) {cred kek wrap : Bytes β} {rnd : WrapRand β}
    (hkek : kek.length = kekprotKekLen)
    (h : gyKekprotWrap sealAlgAegis256 pwhashOpslimitMin pwhashMemlimitMin cred [] kek rnd =
      .ok wrap) : gyKeystoreOpen cred wrap = .ok kek := by
  obtain ⟨p⟩ := gyKekprotWrap_parts h
  have hunseal : gyUnseal kekprotKekLen p.pdk [] p.blob = .ok kek :=
    gyUnseal_gySeal laws p.hblob (by simp) hkek.le
  rw [gyKeystoreOpen_parts p, p.hpdk]
  simp only [unsealKek, hunseal, Except.ok_bind]
  rw [if_neg (by simp [hkek])]

/-- What another key unseals from a sealed blob is what was sealed. -/
theorem gyUnseal_unique (laws : SealLaws β) {cap cap' : Nat} {key key' ad pt pt' blob : Bytes β}
    {nonce : Rng β} (h : gySeal cap key sealAlgAegis256 ad pt nonce = .ok blob)
    (had : ad.length ≤ sealMaxAd) (h' : gyUnseal cap' key' ad blob = .ok pt') : pt' = pt := by
  obtain ⟨n, ct, hn, henc, rfl⟩ := gySeal_aegis h
  have hlen := (laws.aegis henc).1
  rw [gyUnseal_aegis had hn (by omega)] at h'
  split at h'
  · cases h'
  · split at h'
    · cases h'
    · rename_i hdec
      obtain rfl := Except.ok.inj h'
      exact laws.aegis_unique henc hdec

/-- A credential opens a wrap to the key it wraps, or not at all. -/
theorem gyKeystoreOpen_unique (laws : SealLaws β) {cred cred' kek kek' wrap : Bytes β}
    {rnd : WrapRand β}
    (h : gyKekprotWrap sealAlgAegis256 pwhashOpslimitMin pwhashMemlimitMin cred [] kek rnd =
      .ok wrap) (hopen : gyKeystoreOpen cred' wrap = .ok kek') : kek' = kek := by
  obtain ⟨p⟩ := gyKekprotWrap_parts h
  rw [gyKeystoreOpen_parts p] at hopen
  split at hopen
  · cases hopen
  · cases hopen
  · obtain ⟨k, hk, hopen⟩ := Except.bind_eq_ok_iff.mp hopen
    split at hopen
    · cases hopen
    · obtain rfl := Except.ok.inj hopen
      exact gyUnseal_unique laws p.hblob (by simp) hk

/-! ## Symbolic primitives -/

open Geryon.Sym in
instance : SodiumKeystore Sym where
  xchachaEncrypt key nonce ad pt := some (pt ++ tag key nonce ad pt 16)
  xchachaDecrypt key nonce ad ct :=
    let pt := ct.take (ct.length - 16)
    if ct = pt ++ tag key nonce ad pt 16 then some pt else none
  pwhash len cred salt opslimit memlimit :=
    some (prim 14 [ofList cred, ofList salt, num opslimit.toNat, num memlimit] len)

open Geryon.Sym in
/-- The symbolic AEAD opens what it seals. -/
theorem sym_sealLaws : SealLaws Sym where
  aegis := by
    intro key nonce ad pt ct h
    obtain rfl : pt ++ tag key nonce ad pt 32 = ct := Option.some.inj h
    have hlen : (pt ++ tag key nonce ad pt 32).length = pt.length + 32 := by simp [tag]
    refine ⟨hlen, ?_⟩
    have htake : (pt ++ tag key nonce ad pt 32).take
        ((pt ++ tag key nonce ad pt 32).length - AeadAlg.aegis256.tagLen) = pt := by
      rw [hlen]
      exact List.take_left' rfl
    show (if _ then _ else _) = _
    rw [htake]
    exact if_pos rfl
  aegis_unique := by
    intro key key' nonce ad pt pt' ct h h'
    obtain rfl : pt ++ tag key nonce ad pt 32 = ct := Option.some.inj h
    have htake : (pt ++ tag key nonce ad pt 32).take
        ((pt ++ tag key nonce ad pt 32).length - AeadAlg.aegis256.tagLen) = pt := by
      have hlen : (pt ++ tag key nonce ad pt 32).length = pt.length + 32 := by simp [tag]
      rw [hlen]
      exact List.take_left' rfl
    change (if _ then _ else _) = _ at h'
    rw [htake] at h'
    split at h'
    · exact (Option.some.inj h').symm
    · cases h'

open Geryon.Sym in
/-- The symbolic source of random bytes number `k`. -/
def symRng (k : Nat) : Rng Sym := fun n => .ok ⟨prim 17 [num k] n, length_prim _ _ _⟩

open Geryon.Sym in
/-- A symbolic seal with room succeeds. -/
theorem sym_gySeal {cap : Nat} (key ad pt : Bytes Sym) (k : Nat) (had : ad.length ≤ sealMaxAd)
    (hcap : pt.length + sealMaxOverhead ≤ cap) :
    ∃ blob, gySeal cap key sealAlgAegis256 ad pt (symRng k) = .ok blob := by
  have hlens : SealAlg.aegis256.nonceLen = 32 ∧ SealAlg.aegis256.tagLen = 32 := ⟨rfl, rfl⟩
  have halg : aeadAlg 3 = some .aegis256 := rfl
  have htag : AeadAlg.aegis256.tagLen = 32 := rfl
  simp only [sealMaxOverhead] at hcap
  unfold gySeal
  rw [if_neg (by omega)]
  simp only [sealAlg_aegis256, hlens.1, hlens.2]
  rw [if_neg (by omega)]
  simp only [symRng, Except.ok_bind, gyAeadEncrypt, halg]
  rw [if_neg (by rw [length_prim]; exact fun h => h rfl), if_neg (fun h => (nomatch h.1)),
    if_neg (by rw [htag]; omega)]
  exact ⟨_, rfl⟩

open Geryon.Sym in
/-- A symbolic wrap starts with the salt that was drawn. -/
theorem sym_gyKekprotWrap (cred kek : Bytes Sym) (hkek : kek.length = kekprotKekLen) (k : Nat) :
    ∃ rest, gyKekprotWrap sealAlgAegis256 pwhashOpslimitMin pwhashMemlimitMin cred [] kek
      ⟨symRng k, symRng k⟩ = .ok (prim 17 [num k] pwhashSaltLen ++ rest) := by
  obtain ⟨blob, hblob⟩ := @sym_gySeal (keystoreWrapMax - kekprotHdrLen)
    (prim 14 [ofList cred, ofList (prim 17 [num k] pwhashSaltLen), num pwhashOpslimitMin.toNat,
      num pwhashMemlimitMin] 32) [] kek k (Nat.zero_le _) (by rw [hkek]; decide)
  have hpdk : gyPwhashDerive cred (prim 17 [num k] pwhashSaltLen) pwhashOpslimitMin
      pwhashMemlimitMin = .ok (prim 14 [ofList cred, ofList (prim 17 [num k] pwhashSaltLen),
        num pwhashOpslimitMin.toNat, num pwhashMemlimitMin] 32) := by
    unfold gyPwhashDerive
    rw [if_neg (by decide), if_neg (by decide)]
    rfl
  refine ⟨be32Put pwhashOpslimitMin ++ (be64Put (UInt64.ofNat pwhashMemlimitMin) ++ blob), ?_⟩
  simp only [gyKekprotWrap]
  have hsalt :
      symRng k pwhashSaltLen = .ok ⟨prim 17 [num k] pwhashSaltLen, length_prim _ _ _⟩ := rfl
  rw [hsalt]
  simp only [Except.ok_bind, hpdk, hblob]
  rfl

open Geryon.Sym in
/-- Wraps made with different salts differ. -/
theorem sym_salt_ne {k k' : Nat} (hk : k ≠ k') (rest rest' : Bytes Sym) :
    prim 17 [num k] pwhashSaltLen ++ rest ≠ prim 17 [num k'] pwhashSaltLen ++ rest' := by
  intro h
  have hhead := congrArg List.head? h
  rw [List.head?_append, List.head?_append, head?_prim _ _ (by decide), head?_prim _ _ (by decide)]
    at hhead
  simp [ofList] at hhead
  exact hk hhead

end Geryon
