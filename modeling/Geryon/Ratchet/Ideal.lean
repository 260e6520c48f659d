import Geryon.Ratchet.Kdf
import Geryon.Symbolic

/-!
# Ideal primitives

What the correctness of the ratchets assumes of the primitives: they return outputs of the declared
lengths, Diffie-Hellman commutes, decapsulation inverts encapsulation, the AEAD opens what it sealed
and nothing under another key, and the key derivations never map different inputs to one key.

The derivations the ratchets use are then total functions (`nextChainKey`, `messageKey`), and a
header opens exactly under the header key that sealed it (`gyHeDecrypt_sealed`).
-/

namespace Geryon

variable {β : Type} [Octet β]

/-- Primitives that do not fail: derivations and sealings succeed, with outputs of the documented
lengths, and what is sealed opens. -/
structure WorkingSuite [Sodium β] (desc : SuiteDesc β) : Prop where
  curvePkLen_le : desc.curvePkLen ≤ curvePkMax
  kemPkLen_le : desc.kemPkLen ≤ kemEkMax
  kemCtLen_le : desc.kemCtLen ≤ kemCtMax
  name_le : desc.name.length ≤ 28
  hmac_ok : ∀ k m, ∃ t, desc.hmac k m = .ok t ∧ t.length = desc.hashLen
  aead_seal : ∀ a key nonce ad pt, ∃ ct, Sodium.aeadEncrypt (β := β) a key nonce ad pt = some ct ∧
    ct.length = pt.length + a.tagLen ∧ Sodium.aeadDecrypt a key nonce ad ct = some pt

/-- Ideal primitives for a suite. `genuine` and `genuineKem` are the key pairs the generators
return. -/
structure IdealSuite [Sodium β] (desc : SuiteDesc β) where
  curvePkLen_le : desc.curvePkLen ≤ curvePkMax
  kemPkLen_le : desc.kemPkLen ≤ kemEkMax
  kemCtLen_le : desc.kemCtLen ≤ kemCtMax
  name_le : desc.name.length ≤ 28
  hmac_ok : ∀ k m, ∃ t, desc.hmac k m = .ok t ∧ t.length = desc.hashLen
  hash_ok : ∀ m, ∃ t, desc.hash m = .ok t
  extract_ok : ∀ s m, ∃ t, desc.hkdfExtract s m = .ok t
  expand_ok : ∀ len prk info, len ≤ 255 * desc.hashLen →
    ∃ t, desc.hkdfExpand len prk info = .ok t ∧ t.length = len
  /-- HMAC under keys of the ratchet's length never collides, even on its first 32 octets. -/
  hmac_inj : ∀ {k k' m m' t t'}, k.length = 32 → k'.length = 32 → desc.hmac k m = .ok t →
    desc.hmac k' m' = .ok t' → t.take 32 = t'.take 32 → k = k' ∧ m = m'
  /-- Extraction never collides. -/
  extract_inj : ∀ {s s' m m' t}, desc.hkdfExtract s m = .ok t → desc.hkdfExtract s' m' = .ok t →
    s = s' ∧ m = m'
  /-- The 32-octet pieces of expanded keys never collide, within one output or across outputs. -/
  expand_inj : ∀ {len len' prk prk' info info' t t'} {i j : Nat},
    desc.hkdfExpand len prk info = .ok t → desc.hkdfExpand len' prk' info' = .ok t' →
    32 * (i + 1) ≤ len → 32 * (j + 1) ≤ len' →
    (t.drop (32 * i)).take 32 = (t'.drop (32 * j)).take 32 → prk = prk' ∧ info = info' ∧ i = j
  genuine : Keypair β → Prop
  genuine_pk : ∀ {a}, genuine a → a.pk.length = desc.curvePkLen
  dh_comm : ∀ {a b}, genuine a → genuine b →
    ∃ s, desc.dh a.sk b.pk = .ok s ∧ desc.dh b.sk a.pk = .ok s
  genuineKem : Bytes β → Bytes β → Prop
  genuineKem_ek : ∀ {ek dk}, genuineKem ek dk → ek.length = desc.kemPkLen
  kem_correct : ∀ {ek dk}, genuineKem ek dk → ∀ coins, ∃ ct ss,
    desc.kemEncap ek coins = .ok (ct, ss) ∧ ct.length = desc.kemCtLen ∧
      desc.kemDecap ct dk = .ok ss
  aead_seal : ∀ a key nonce ad pt, ∃ ct, Sodium.aeadEncrypt (β := β) a key nonce ad pt = some ct ∧
    ct.length = pt.length + a.tagLen ∧ Sodium.aeadDecrypt a key nonce ad ct = some pt
  /-- A ciphertext opens under no key but the one that sealed it. -/
  aead_bind : ∀ {a key key' nonce nonce' ad ad'} {pt pt' ct : Bytes β},
    Sodium.aeadEncrypt a key nonce ad pt = some ct →
    Sodium.aeadDecrypt a key' nonce' ad' ct = some pt' → key' = key

open Geryon.Sym in
/-- The symbolic primitives are ideal. -/
def symIdeal (isHybrid : Bool) : IdealSuite (symSuite isHybrid) where
  curvePkLen_le := by decide +revert
  kemPkLen_le := by decide +revert
  kemCtLen_le := by decide +revert
  name_le := by decide +revert
  hmac_ok k m := ⟨_, rfl, length_prim _ _ _⟩
  hash_ok m := ⟨_, rfl⟩
  extract_ok s m := ⟨_, rfl⟩
  expand_ok len prk info _ := ⟨_, rfl, length_prim _ _ _⟩
  hmac_inj := by
    intro k k' m m' t t' _ _ h h' heq
    obtain rfl := Except.ok.inj h
    obtain rfl := Except.ok.inj h'
    obtain ⟨-, hin, -⟩ :=
      prim_inj (i := 0) (j := 0) (by decide : 0 < 32) (by decide) (by decide) heq
    simpa using hin
  extract_inj := by
    intro s s' m m' t h h'
    have heq := (Except.ok.inj h).trans (Except.ok.inj h').symm
    obtain ⟨-, hin, -⟩ := prim_inj (i := 0) (j := 0) (m := 64) (by decide) (by decide)
      (by decide) (congrArg (List.take 64) heq)
    simpa using hin
  expand_inj := by
    intro len len' prk prk' info info' t t' i j h h' hi hj heq
    obtain rfl := Except.ok.inj h
    obtain rfl := Except.ok.inj h'
    obtain ⟨-, hin, hij⟩ := prim_inj (by decide : 0 < 32) (by omega) (by omega) heq
    have hin : prk = prk' ∧ info = info' := by simpa using hin
    exact ⟨hin.1, hin.2, by omega⟩
  genuine kp := ∃ n, kp = curvePair n
  genuine_pk := by
    rintro _ ⟨n, rfl⟩
    exact length_prim _ _ _
  dh_comm := by
    rintro _ _ ⟨n, rfl⟩ ⟨m, rfl⟩
    refine ⟨prim 5 [num (min n m), num (max n m)] 32, ?_, ?_⟩
    · simp [symSuite, Sym.dh, curvePair]
    · simp [symSuite, Sym.dh, curvePair, Nat.min_comm, Nat.max_comm]
  genuineKem ek dk := ∃ n, ek = kemEk n ∧ dk = kemDk n
  genuineKem_ek := by
    rintro ek dk ⟨n, hek, -⟩
    rw [hek]
    exact length_kemEk n
  kem_correct := by
    rintro ek dk ⟨n, hek, hdk⟩ coins
    rw [hek, hdk]
    refine ⟨prim 6 (num n :: coins) 1088, prim 7 (num n :: coins) 32, ?_, length_prim _ _ _, ?_⟩
    · simp [symSuite, Sym.kemEncap, keyNum_kemEk]
    · simp only [symSuite, Sym.kemDecap, keyNum_kemDk, ofList,
        head?_prim 6 (num n :: coins) (by decide : 0 < 1088)]
      rfl
  aead_seal := by
    intro a key nonce ad pt
    refine ⟨_, rfl, by simp [Sym.tag], ?_⟩
    have hlen : (pt ++ Sym.tag key nonce ad pt a.tagLen).length - a.tagLen = pt.length := by
      simp [Sym.tag]
    simp only [Sodium.aeadDecrypt, hlen, List.take_left', if_true]
  aead_bind := by
    intro a key key' nonce nonce' ad ad' pt pt' ct henc hdec
    obtain rfl := Option.some.inj henc
    have hlen : (pt ++ Sym.tag key nonce ad pt a.tagLen).length - a.tagLen = pt.length := by
      simp [Sym.tag]
    simp only [Sodium.aeadDecrypt, hlen, List.take_left'] at hdec
    split_ifs at hdec with h
    have htag := List.append_cancel_left h
    have hpos : 0 < a.tagLen := by cases a <;> decide
    obtain ⟨-, hin, -⟩ :=
      prim_inj (i := 0) (j := 0) hpos hpos hpos (congrArg (List.take a.tagLen) htag)
    simp only [List.cons.injEq, ofList_inj] at hin
    exact hin.1.symm

/-- An AEAD identifier the library supports on this machine. -/
def AeadUsable (β : Type) [Sodium β] (id : UInt8) : Prop :=
  ∃ a, aeadAlg id = some a ∧ (a = .aes256gcm → Sodium.aes256gcmAvailable β = true)

variable (desc : SuiteDesc β)

/-- The info string of a purpose. -/
def infoOf (purpose : String) : Bytes β :=
  ascii "geryon" ++ ascii "." ++ ascii "1" ++ ascii "." ++ ascii desc.name ++ ascii "." ++
    ascii purpose

/-- The message key of a chain key. -/
def messageKey (ck : Bytes β) : Bytes β :=
  (gyDrcKdfCk desc ck).toOption.elim [] Prod.fst

/-- The chain key after a chain key. -/
def nextChainKey (ck : Bytes β) : Bytes β :=
  (gyDrcKdfCk desc ck).toOption.elim [] Prod.snd

/-- The chain key of message number `n` on the chain that starts with `ck`. -/
def chainKey (ck : Bytes β) (n : Nat) : Bytes β := (nextChainKey desc)^[n] ck

theorem chainKey_zero (ck : Bytes β) : chainKey desc ck 0 = ck := rfl

theorem chainKey_succ (ck : Bytes β) (n : Nat) :
    chainKey desc ck (n + 1) = nextChainKey desc (chainKey desc ck n) :=
  Function.iterate_succ_apply' _ _ _

variable [Sodium β]

namespace WorkingSuite

variable {desc} (W : WorkingSuite desc)
include W

theorem gyInfo_eq {purpose : String} (h : purpose.length ≤ 10) :
    gyInfo desc infoMax purpose = .ok (infoOf desc purpose) := by
  have hname := W.name_le
  rw [gyInfo, if_neg, infoOf]
  simp only [infoMax]
  omega

/-- The counter loop produces what it is asked for, and starts with its first block. -/
theorem kdfCtrBlocks_ok (key fixed : Bytes β) (fuel : Nat) : ∀ (counter : UInt32) (need : Nat),
    need ≤ fuel → ∃ out, kdfCtrBlocks desc key fixed fuel counter need = .ok out ∧
      out.length = need := by
  have hlen := desc.hashLen_ge
  induction fuel with
  | zero => exact fun _ need h => ⟨[], rfl, by simp; omega⟩
  | succ fuel ih =>
    intro counter need hneed
    by_cases h0 : need = 0
    · exact ⟨[], by simp [kdfCtrBlocks, h0], by simp [h0]⟩
    · obtain ⟨block, hblock, hblen⟩ := W.hmac_ok key (be32Put counter ++ fixed)
      obtain ⟨rest, hrest, hrlen⟩ := ih (counter + 1) (need - min need desc.hashLen) (by omega)
      refine ⟨block.take (min need desc.hashLen) ++ rest, ?_, ?_⟩
      · simp [kdfCtrBlocks, h0, hblock, hrest, bind, Except.bind, pure, Except.pure]
      · simp only [List.length_append, List.length_take, hblen, hrlen]
        omega

/-- A derived key has the requested length, and its first 32 octets are those of an HMAC under the
derivation key. -/
theorem gyKdfCtr_ok {outlen : Nat} (h32 : 32 ≤ outlen) (hmax : outlen ≤ 64)
    (key label context : Bytes β) : ∃ out block, gyKdfCtr desc outlen key label context = .ok out ∧
      out.length = outlen ∧ out.take 32 = block.take 32 ∧
      desc.hmac key (be32Put 1 ++ (label ++ [Octet.ofByte 0] ++ context ++
        be32Put (UInt32.ofNat (outlen * 8)))) = .ok block := by
  have hlen := desc.hashLen_ge
  obtain ⟨fuel, rfl⟩ : ∃ fuel, outlen = fuel + 1 := ⟨outlen - 1, by omega⟩
  generalize hfix : label ++ [Octet.ofByte 0] ++ context ++
    be32Put (UInt32.ofNat ((fuel + 1) * 8)) = fixed
  obtain ⟨block, hblock, hblen⟩ := W.hmac_ok key (be32Put 1 ++ fixed)
  obtain ⟨rest, hrest, hrlen⟩ := W.kdfCtrBlocks_ok key fixed fuel (1 + 1)
    (fuel + 1 - min (fuel + 1) desc.hashLen) (by omega)
  refine ⟨block.take (min (fuel + 1) desc.hashLen) ++ rest, block, ?_, ?_, ?_, hblock⟩
  · rw [gyKdfCtr, if_neg (by omega), hfix]
    simp only [kdfCtrBlocks, Nat.add_one_ne_zero, if_false, hblock, hrest, bind, Except.bind, pure,
      Except.pure]
  · simp only [List.length_append, List.length_take, hblen, hrlen]
    omega
  · rw [List.take_append_of_le_length (by simp [hblen]; omega), List.take_take]
    congr 1
    omega

/-! ## Chain keys -/

/-- The chain derivation is total, with outputs of the key length. -/
theorem gyDrcKdfCk_eq (ck : Bytes β) :
    gyDrcKdfCk desc ck = .ok (messageKey desc ck, nextChainKey desc ck) ∧
      (messageKey desc ck).length = 32 ∧ (nextChainKey desc ck).length = 32 := by
  obtain ⟨mk, _, hmk, hmklen, -⟩ := W.gyKdfCtr_ok le_rfl (by omega) ck (infoOf desc "dr.msg") []
  obtain ⟨ckn, _, hck, hcklen, -⟩ := W.gyKdfCtr_ok le_rfl (by omega) ck (infoOf desc "dr.chain") []
  have h : gyDrcKdfCk desc ck = .ok (mk, ckn) := by
    simp [gyDrcKdfCk, kdfCkOne, W.gyInfo_eq (by decide : "dr.msg".length ≤ 10),
      W.gyInfo_eq (by decide : "dr.chain".length ≤ 10), hmk, hck, bind, Except.bind, pure,
      Except.pure]
  simp [messageKey, nextChainKey, h, Except.toOption, hmklen, hcklen]

/-! ## AEAD keys -/

omit [Octet β] W in
theorem nonceLen_pos {id : UInt8} (h : AeadUsable β id) : 0 < aeadNonceLen id := by
  obtain ⟨a, ha, -⟩ := h
  cases a <;> simp [aeadNonceLen, ha, AeadAlg.nonceLen]

omit [Octet β] W in
theorem tagLen_pos {id : UInt8} (h : AeadUsable β id) : 0 < aeadTagLen id := by
  obtain ⟨a, ha, -⟩ := h
  cases a <;> simp [aeadTagLen, ha, AeadAlg.tagLen]

/-- An AEAD key and nonce can be derived from any key, and the derived key pins down a derivation
key of the ratchet's length. -/
theorem deriveKeyNonce_ok {id : UInt8} (hid : AeadUsable β id) {purpose : String}
    (hp : purpose.length ≤ 10) (key context : Bytes β) :
    ∃ k n block, deriveKeyNonce desc key id purpose context = .ok (k, n) ∧
      n.length = aeadNonceLen id ∧ k = block.take 32 ∧
      ∃ m, desc.hmac key m = .ok block := by
  have hpos := nonceLen_pos hid
  have hle : aeadNonceLen id ≤ 32 := by
    obtain ⟨a, ha, -⟩ := hid
    cases a <;> simp [aeadNonceLen, ha, AeadAlg.nonceLen]
  obtain ⟨out, block, hout, hlen, htake, hblock⟩ := W.gyKdfCtr_ok
    (by omega : 32 ≤ 32 + aeadNonceLen id) (by omega) key (infoOf desc purpose)
    (Octet.ofByte id :: context)
  refine ⟨out.take 32, out.drop 32, block, ?_, ?_, htake, _, hblock⟩
  · rw [deriveKeyNonce, if_neg (by omega)]
    simp [W.gyInfo_eq hp, hout, bind, Except.bind, pure, Except.pure]
  · simp [hlen]

/-! ## Sealing -/

omit [Octet β] in
/-- Sealing into a large enough buffer succeeds, adds the tag, and opens again into any buffer that
holds the plaintext. -/
theorem gyAeadEncrypt_ok {id : UInt8} (hid : AeadUsable β id) {cap : Nat}
    {nonce pt : Bytes β} (key ad : Bytes β) (hn : nonce.length = aeadNonceLen id)
    (hcap : pt.length + aeadTagLen id ≤ cap) :
    ∃ ct, gyAeadEncrypt id cap key nonce ad pt = .ok ct ∧
      ct.length = pt.length + aeadTagLen id ∧
      ∀ cap', gyAeadDecrypt id cap' key nonce ad ct =
        if pt.length ≤ cap' then .ok pt else .error .arg := by
  obtain ⟨a, ha, havail⟩ := hid
  obtain ⟨ct, henc, hlen, hdec⟩ := W.aead_seal a key nonce ad pt
  simp only [aeadNonceLen, aeadTagLen, ha, Option.elim_some] at hn hcap ⊢
  have hav : ¬(a = .aes256gcm ∧ Sodium.aes256gcmAvailable β = false) := by
    rintro ⟨h, h'⟩
    simp [havail h] at h'
  refine ⟨ct, ?_, hlen, fun cap' => ?_⟩
  · simp only [gyAeadEncrypt, ha]
    rw [if_neg (by simp [hn]), if_neg hav, if_neg (by omega), henc]
  · simp only [gyAeadDecrypt, ha]
    rw [if_neg (by simp [hn]), if_neg hav, if_neg (by omega), hdec, hlen, Nat.add_sub_cancel]
    by_cases h : pt.length ≤ cap'
    · rw [if_neg (by omega), if_pos h]
    · rw [if_pos (by omega), if_neg h]

/-- Sealing a header succeeds; the salt is the one drawn. -/
theorem gyHeEncrypt_ok {id : UInt8} (hid : AeadUsable β id) {cap : Nat} {header : Bytes β}
    (hk ad2 salt : Bytes β) (hcap : header.length + aeadTagLen id ≤ cap) :
    ∃ enc, gyHeEncrypt desc id hk header ad2 cap (.ok salt) = .ok (salt, enc) ∧
      enc.length = header.length + aeadTagLen id := by
  have htag := tagLen_pos hid
  obtain ⟨key, nonce, block, hder, hn, -⟩ :=
    W.deriveKeyNonce_ok hid (by decide : "he.aead".length ≤ 10) hk salt
  obtain ⟨ct, hct, hlen, -⟩ := W.gyAeadEncrypt_ok hid key ad2 hn hcap
  refine ⟨ct, ?_, hlen⟩
  rw [gyHeEncrypt, if_neg (by omega), if_neg (by omega)]
  simp [heDerive, hder, hct, bind, Except.bind, pure, Except.pure]

end WorkingSuite

namespace IdealSuite

variable {desc} (I : IdealSuite desc)
include I

omit [Octet β] in
/-- Ideal primitives do not fail. -/
theorem works : WorkingSuite desc where
  curvePkLen_le := I.curvePkLen_le
  kemPkLen_le := I.kemPkLen_le
  kemCtLen_le := I.kemCtLen_le
  name_le := I.name_le
  hmac_ok := I.hmac_ok
  aead_seal := I.aead_seal

/-! ## Keys that open -/

/-- Two derivations that give one AEAD key start from one key. -/
theorem deriveKeyNonce_inj {id id' : UInt8} (hid : AeadUsable β id) (hid' : AeadUsable β id')
    {purpose purpose' : String} (hp : purpose.length ≤ 10) (hp' : purpose'.length ≤ 10)
    {key key' context context' k n n' : Bytes β} (hk : key.length = 32) (hk' : key'.length = 32)
    (h : deriveKeyNonce desc key id purpose context = .ok (k, n))
    (h' : deriveKeyNonce desc key' id' purpose' context' = .ok (k, n')) : key = key' := by
  obtain ⟨k₁, n₁, b₁, h₁, -, hk₁, m₁, hm₁⟩ := I.works.deriveKeyNonce_ok hid hp key context
  obtain ⟨k₂, n₂, b₂, h₂, -, hk₂, m₂, hm₂⟩ := I.works.deriveKeyNonce_ok hid' hp' key' context'
  rw [h] at h₁
  rw [h'] at h₂
  obtain ⟨rfl, rfl⟩ := Prod.mk.inj (Except.ok.inj h₁)
  obtain ⟨hkk, rfl⟩ := Prod.mk.inj (Except.ok.inj h₂)
  exact (I.hmac_inj hk hk' hm₁ hm₂ (by rw [← hk₁, ← hk₂, hkk])).1

omit [Octet β] in
/-- A ciphertext opens under no other key. -/
theorem gyAeadDecrypt_key {id cap cap' : _} {key key' nonce nonce' ad ad' pt pt' ct : Bytes β}
    (henc : gyAeadEncrypt id cap key nonce ad pt = .ok ct)
    (hdec : gyAeadDecrypt id cap' key' nonce' ad' ct = .ok pt') : key' = key := by
  unfold gyAeadEncrypt at henc
  unfold gyAeadDecrypt at hdec
  split at henc
  · cases henc
  · next a ha =>
    simp only [ha] at hdec
    split_ifs at henc hdec
    split at henc
    · cases henc
    · next ct' hseal =>
      split at hdec
      · cases hdec
      · next pt'' hopen =>
        cases henc
        exact I.aead_bind hseal hopen

/-! ## Headers -/

/-- A sealed header opens under its own header key, and under no other. -/
theorem gyHeDecrypt_sealed {id : UInt8} (hid : AeadUsable β id) {cap cap' : Nat}
    {hk hk' header ad2 salt enc : Bytes β} (hlen : hk.length = 32) (hlen' : hk'.length = 32)
    (hcap : header.length + aeadTagLen id ≤ cap) (hcap' : header.length ≤ cap')
    (henc : gyHeEncrypt desc id hk header ad2 cap (.ok salt) = .ok (salt, enc)) :
    (hk' = hk → gyHeDecrypt desc id hk' salt enc ad2 cap' = .ok header) ∧
      (hk' ≠ hk → ∃ e, gyHeDecrypt desc id hk' salt enc ad2 cap' = .error e) := by
  have htag := WorkingSuite.tagLen_pos hid
  obtain ⟨key, nonce, _, hder, hn, -⟩ :=
    I.works.deriveKeyNonce_ok hid (by decide : "he.aead".length ≤ 10) hk salt
  obtain ⟨key', nonce', _, hder', hn', -⟩ :=
    I.works.deriveKeyNonce_ok hid (by decide : "he.aead".length ≤ 10) hk' salt
  obtain ⟨ct, hct, hctlen, hopen⟩ := I.works.gyAeadEncrypt_ok hid key ad2 hn hcap
  rw [gyHeEncrypt, if_neg (by omega), if_neg (by omega)] at henc
  obtain rfl : ct = enc := by
    simpa [heDerive, hder, hct, bind, Except.bind, pure, Except.pure] using henc
  have hdec : gyHeDecrypt desc id hk' salt ct ad2 cap' =
      gyAeadDecrypt id cap' key' nonce' ad2 ct := by
    rw [gyHeDecrypt, if_neg (by omega), if_neg (by omega)]
    simp [heDerive, hder', bind, Except.bind]
  constructor
  · rintro rfl
    rw [hder] at hder'
    obtain ⟨rfl, rfl⟩ := Prod.mk.inj (Except.ok.inj hder')
    rw [hdec, hopen, if_pos hcap']
  · intro hne
    rcases h : gyAeadDecrypt id cap' key' nonce' ad2 ct with e | pt'
    · exact ⟨e, hdec.trans h⟩
    · obtain rfl := I.gyAeadDecrypt_key hct h
      exact absurd (I.deriveKeyNonce_inj hid hid (by decide) (by decide) hlen' hlen hder' hder) hne

end IdealSuite
end Geryon
