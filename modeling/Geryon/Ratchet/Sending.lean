import Geryon.Ratchet.DoubleRun
import Geryon.Ratchet.Hybrid

/-!
# What an encryption leaves behind

Encryption advances the sending chain in the middle: after the header is encrypted and the chain
derived, before the payload key is derived and the payload sealed. `Engine.encrypt_eq` cuts the call
at that point into `Engine.prepare` and `Engine.sealPayload`, and the state it leaves behind follows
from where it stopped.

## Main results

* `encrypt_advances`: the state after a call of either engine, whatever the call returned;
* `encrypt_advances_on_failure`: a reachable session whose call fails and leaves it advanced.
-/

namespace Geryon

/-- What an encryption has in hand when it advances the sending chain: the offset of the payload,
the header wire unit, the message key and the next chain key. -/
structure Prepared (β : Type) where
  ppos : Nat
  wire : Bytes β
  msgKey : Bytes β
  ckNext : Bytes β

namespace Engine

variable {β σ η : Type} [Octet β] [Sodium β] (E : Engine β σ η) (desc : SuiteDesc β)

/-- The steps of an encryption before the sending chain advances. -/
def prepare (cap : Nat) (pt ad : Bytes β) (salt : Except GyErr (Bytes β)) (st : σ) :
    Except GyErr (Prepared β) :=
  let b := E.base st
  if !b.haveCks || !b.haveHks || !E.canSend st then .error .state
  else if E.adMax < ad.length then .error .arg
  else do
    let hdrp ← E.encode (E.header st) E.headerMax
    let taglen := aeadTagLen b.aeadId
    let ppos := 2 + (heSaltLen + 2 + (hdrp.length + taglen))
    if cap < ppos + pt.length + taglen then .error .arg
    else do
      let (salt, enc) ← gyHeEncrypt desc b.aeadId b.hks hdrp (gyFramePut desc.suiteId)
        (cap - (2 + heSaltLen + 2)) salt
      let (msgKey, ckNext) ← gyDrcKdfCk desc b.cks
      .ok ⟨ppos, headerWire salt enc, msgKey, ckNext⟩

/-- The steps of an encryption after the sending chain has advanced, from the state before it. -/
def sealPayload (cap : Nat) (pt ad : Bytes β) (p : Prepared β) (st : σ) :
    Except GyErr (Bytes β) := do
  let b := E.base st
  let (key, nonce) ← gyDrcDeriveAead desc p.msgKey b.aeadId b.ns
  let ct ← gyAeadEncrypt b.aeadId (cap - p.ppos) key nonce (ad ++ p.wire) pt
  .ok (gyFramePut desc.suiteId ++ p.wire ++ ct)

/-- One step of the sending chain, to the chain key `ckNext`, and nothing else. -/
def advanced (ckNext : Bytes β) (st : σ) : σ :=
  E.withBase { E.base st with cks := ckNext, ns := (E.base st).ns + 1 } st

/-- An encryption is its preparation, one step of the sending chain and the sealing. -/
theorem encrypt_eq (cap : Nat) (pt ad : Bytes β) (salt : Except GyErr (Bytes β)) (st : σ) :
    E.encrypt desc cap pt ad salt st =
      match E.prepare desc cap pt ad salt st with
      | .error e => (.error e, st)
      | .ok p => (E.sealPayload desc cap pt ad p st, E.advanced p.ckNext st) := by
  simp only [encrypt, prepare, Cmd.bind_apply, Cmd.get_apply, Cmd.ite_apply, Cmd.fail_apply,
    Cmd.lift_apply]
  split_ifs
  · rfl
  · rfl
  -- past the two checks every step either ends both sides or hands its result to both
  cases henc : E.encode (E.header st) E.headerMax with
  | error e => rfl
  | ok hdrp =>
    simp only [Except.ok_bind]
    split_ifs
    · rfl
    cases hhe : gyHeEncrypt desc (E.base st).aeadId (E.base st).hks hdrp (gyFramePut desc.suiteId)
        (cap - (2 + heSaltLen + 2)) salt with
    | error e => simp [bind, Except.bind]
    | ok r =>
      obtain ⟨salt', enc⟩ := r
      cases hck : gyDrcKdfCk desc (E.base st).cks with
      | error e => simp [bind, Except.bind]
      | ok r =>
        obtain ⟨msgKey, ckNext⟩ := r
        simp only [Except.ok_bind, Cmd.modify_apply, sealPayload]
        cases gyDrcDeriveAead desc msgKey (E.base st).aeadId (E.base st).ns with
        | error e => rfl
        | ok r =>
          simp only [Except.ok_bind]
          cases gyAeadEncrypt (E.base st).aeadId _ r.1 r.2 (ad ++ headerWire salt' enc) pt with
          | error e => rfl
          | ok ct => rfl

variable {E desc}

/-- What a finished preparation says: the chain was derived, and the buffer has room for the
payload. -/
theorem prepare_ok {cap : Nat} {pt ad : Bytes β} {salt : Except GyErr (Bytes β)} {st : σ}
    {p : Prepared β} (h : E.prepare desc cap pt ad salt st = .ok p) :
    gyDrcKdfCk desc (E.base st).cks = .ok (p.msgKey, p.ckNext) ∧
      p.ppos + (pt.length + aeadTagLen (E.base st).aeadId) ≤ cap := by
  rw [prepare] at h
  split_ifs at h with hhave had
  obtain ⟨hdrp, -, h⟩ := Except.bind_eq_ok_iff.1 h
  dsimp only at h
  split_ifs at h with hcap
  obtain ⟨⟨salt', enc⟩, -, h⟩ := Except.bind_eq_ok_iff.1 h
  obtain ⟨⟨msgKey, ckNext⟩, hck, h⟩ := Except.bind_eq_ok_iff.1 h
  obtain rfl := Except.ok.inj h
  refine ⟨hck, ?_⟩
  dsimp only
  omega

/-- The preparation of a session that may send, into a buffer with room. -/
theorem prepare_of {cap : Nat} {pt ad hdrp salt' enc msgKey ckNext : Bytes β}
    {salt : Except GyErr (Bytes β)} {st : σ} (hcks : (E.base st).haveCks = true)
    (hhks : (E.base st).haveHks = true) (hsend : E.canSend st = true) (had : ad.length ≤ E.adMax)
    (henc : E.encode (E.header st) E.headerMax = .ok hdrp)
    (hcap : 2 + (heSaltLen + 2 + (hdrp.length + aeadTagLen (E.base st).aeadId)) + pt.length +
      aeadTagLen (E.base st).aeadId ≤ cap)
    (hhe : gyHeEncrypt desc (E.base st).aeadId (E.base st).hks hdrp (gyFramePut desc.suiteId)
      (cap - (2 + heSaltLen + 2)) salt = .ok (salt', enc))
    (hck : gyDrcKdfCk desc (E.base st).cks = .ok (msgKey, ckNext)) :
    E.prepare desc cap pt ad salt st =
      .ok ⟨2 + (heSaltLen + 2 + (hdrp.length + aeadTagLen (E.base st).aeadId)),
        headerWire salt' enc, msgKey, ckNext⟩ := by
  simp only [prepare, hcks, hhks, hsend, henc, hhe, hck, Nat.not_lt.2 had, Nat.not_lt.2 hcap,
    Except.ok_bind, Bool.not_true, Bool.or_self, Bool.false_eq_true, if_false]

/-- A sealing fails in the derivation of its key or in the payload AEAD. -/
theorem sealPayload_error {cap : Nat} {pt ad : Bytes β} {p : Prepared β} {st : σ} {e : GyErr}
    (h : E.sealPayload desc cap pt ad p st = .error e) :
    gyDrcDeriveAead desc p.msgKey (E.base st).aeadId (E.base st).ns = .error e ∨
    ∃ key nonce, gyDrcDeriveAead desc p.msgKey (E.base st).aeadId (E.base st).ns =
        .ok (key, nonce) ∧
      gyAeadEncrypt (E.base st).aeadId (cap - p.ppos) key nonce (ad ++ p.wire) pt = .error e := by
  rw [sealPayload] at h
  -- the payload step fails either at its key or at the cipher
  cases hder : gyDrcDeriveAead desc p.msgKey (E.base st).aeadId (E.base st).ns with
  | error e' =>
    left
    rw [hder] at h
    exact congrArg Except.error (Except.error.inj h)
  | ok r =>
    right
    refine ⟨r.1, r.2, rfl, ?_⟩
    simp only [hder, Except.ok_bind] at h
    cases hct : gyAeadEncrypt (E.base st).aeadId (cap - p.ppos) r.1 r.2 (ad ++ p.wire) pt with
    | error e' =>
      rw [hct] at h
      exact congrArg Except.error (Except.error.inj h)
    | ok ct =>
      rw [hct] at h
      cases h

/-- A sealing whose AEAD fails. -/
theorem sealPayload_of_error {cap : Nat} {pt ad key nonce : Bytes β} {p : Prepared β} {st : σ}
    {e : GyErr} (hder : gyDrcDeriveAead desc p.msgKey (E.base st).aeadId (E.base st).ns =
      .ok (key, nonce))
    (hct : gyAeadEncrypt (E.base st).aeadId (cap - p.ppos) key nonce (ad ++ p.wire) pt =
      .error e) :
    E.sealPayload desc cap pt ad p st = .error e := by
  rw [sealPayload, hder, Except.ok_bind]
  simp only [hct]
  rfl

/-- What an encryption leaves behind. A call that returns a frame has advanced the sending chain by
one step and changed nothing else. A call that fails before the chain advances leaves the state as
it was. A call that fails after that, in the derivation of the payload key or in the payload AEAD,
leaves the chain advanced by that one step; the payload AEAD is then not short of room. -/
structure EncryptLeaves (E : Engine β σ η) (desc : SuiteDesc β) (cap : Nat) (pt ad : Bytes β)
    (salt : Except GyErr (Bytes β)) (st : σ) : Prop where
  of_ok : ∀ frame, (E.encrypt desc cap pt ad salt st).1 = .ok frame →
    ∃ mk ckNext, gyDrcKdfCk desc (E.base st).cks = .ok (mk, ckNext) ∧
      (E.encrypt desc cap pt ad salt st).2 = E.advanced ckNext st
  of_early : ∀ e, E.prepare desc cap pt ad salt st = .error e →
    E.encrypt desc cap pt ad salt st = (.error e, st)
  of_late : ∀ p e, E.prepare desc cap pt ad salt st = .ok p →
    (E.encrypt desc cap pt ad salt st).1 = .error e →
    gyDrcKdfCk desc (E.base st).cks = .ok (p.msgKey, p.ckNext) ∧
    (E.encrypt desc cap pt ad salt st).2 = E.advanced p.ckNext st ∧
    (gyDrcDeriveAead desc p.msgKey (E.base st).aeadId (E.base st).ns = .error e ∨
      ∃ key nonce, pt.length + aeadTagLen (E.base st).aeadId ≤ cap - p.ppos ∧
        gyAeadEncrypt (E.base st).aeadId (cap - p.ppos) key nonce (ad ++ p.wire) pt = .error e)

theorem encryptLeaves (E : Engine β σ η) (desc : SuiteDesc β) (cap : Nat) (pt ad : Bytes β)
    (salt : Except GyErr (Bytes β)) (st : σ) : E.EncryptLeaves desc cap pt ad salt st where
  of_ok := by
    intro frame h
    rw [encrypt_eq] at h ⊢
    cases hp : E.prepare desc cap pt ad salt st with
    | error e =>
      rw [hp] at h
      cases h
    | ok p => exact ⟨p.msgKey, p.ckNext, (prepare_ok hp).1, rfl⟩
  of_early := by
    intro e he
    rw [encrypt_eq, he]
  of_late := by
    intro p e hp h
    obtain ⟨hck, hroom⟩ := prepare_ok hp
    rw [encrypt_eq, hp] at h ⊢
    refine ⟨hck, rfl, ?_⟩
    apply (sealPayload_error h).imp_right
    rintro ⟨key, nonce, -, hct⟩
    exact ⟨key, nonce, by omega, hct⟩

end Engine

/-- Whatever the state, the plaintext, the associated data and the buffer: an encryption of either
engine that succeeds has advanced the sending chain by one step and changed nothing else, one that
fails before the chain advances has changed nothing, and one that fails in the derivation of the
payload key or in the payload AEAD has advanced the chain by one step and changed nothing else. -/
theorem encrypt_advances {β : Type} [Octet β] [Sodium β] (desc : SuiteDesc β) :
    (∀ cap pt ad salt st, (classical desc).EncryptLeaves desc cap pt ad salt st) ∧
    (∀ cap pt ad salt st, (hybrid desc).EncryptLeaves desc cap pt ad salt st) :=
  ⟨Engine.encryptLeaves (classical desc) desc, Engine.encryptLeaves (hybrid desc) desc⟩

/-- The first message of an initiator: it advances the chain when the buffer holds it, and leaves
the session when its header alone does not fit. -/
theorem first_encryption_leaves :
    (∃ frame mk ckNext,
      (gyDrEncrypt (symSuite false) 8192 [] [] (.ok (zeros 16)) symAlice).1 = .ok frame ∧
      gyDrcKdfCk (symSuite false) symAlice.cks = .ok (mk, ckNext) ∧
      (gyDrEncrypt (symSuite false) 8192 [] [] (.ok (zeros 16)) symAlice).2 =
        { symAlice with cks := ckNext, ns := 1 }) ∧
    gyDrEncrypt (symSuite false) 51 [] [] (.ok (zeros 16)) symAlice = (.error .arg, symAlice) := by
  obtain ⟨hleaves, -⟩ := encrypt_advances (symSuite false)
  obtain ⟨lv, hy⟩ := sync_sym
  have hb : BaseAt (symSuite false) 1 (symSecrets false) lv 1 symAlice := hy.base .alice
  have hg := hy.genuine .alice 1 le_rfl
  constructor
  -- with room, the frame goes out and the chain moves
  · obtain ⟨frame, hframe⟩ : ∃ frame,
        (gyDrEncrypt (symSuite false) 8192 [] [] (.ok (zeros 16)) symAlice).1 = .ok frame := by
      rcases encrypt_at (classicalSpec (symIdeal false)) aeadUsable_sym le_rfl hb trivial hg
        (show ([] : Bytes Sym).length ≤ x3dhAdMax from Nat.zero_le _) 8192 [] (length_zeros 16)
        with ⟨frame, henc, -⟩ | ⟨e, hlt, -⟩
      · exact ⟨frame, congrArg Prod.fst henc⟩
      · exact absurd roomFor_classical (Nat.not_le.2 hlt)
    obtain ⟨mk, ckNext, hck, hst⟩ := (hleaves 8192 [] [] (.ok (zeros 16)) symAlice).of_ok _ hframe
    exact ⟨frame, mk, ckNext, hframe, hck, hst⟩
  -- 51 octets are one short of an empty message, and the check comes before the sealing
  · have hprep : (classical (symSuite false)).prepare (symSuite false) 51 [] [] (.ok (zeros 16))
        symAlice = .error .arg := by
      obtain ⟨hdrp, henc, -⟩ := (classicalSpec (symIdeal false)).encode_ok
        ((classicalSpec (symIdeal false)).hdr_header (s := symAlice) le_rfl trivial hb.dhs)
        (show symAlice.dhs.pk.length = 32 from rfl)
      have hcap : 51 < 2 + (heSaltLen + 2 + (hdrp.length + aeadTagLen symAlice.aeadId)) +
          ([] : Bytes Sym).length + aeadTagLen symAlice.aeadId := by
        show 51 < 2 + (16 + 2 + (hdrp.length + 16)) + 0 + 16
        omega
      rw [Engine.prepare, if_neg (by decide), if_neg (by decide), henc, Except.ok_bind]
      exact if_pos hcap
    exact (hleaves 51 [] [] (.ok (zeros 16)) symAlice).of_early _ hprep

/-! ## A call that fails late -/

/-- Symbolic primitives whose AEAD refuses texts over a hundred octets. -/
@[reducible] def Sym.refusing : Sodium Sym where
  aes256gcmAvailable := true
  aeadEncrypt a key nonce ad pt :=
    if 100 < pt.length then none else some (pt ++ Sym.tag key nonce ad pt a.tagLen)
  aeadDecrypt a key nonce ad ct := Sodium.aeadDecrypt a key nonce ad ct
  sha512 := Sodium.sha512
  length_sha512 := Sodium.length_sha512

/-- Past its own checks the AEAD call is the provider's. -/
theorem gyAeadEncrypt_chacha {β : Type} [Octet β] [Sodium β] {cap : Nat} {key nonce ad pt : Bytes β}
    (hn : nonce.length = 12) (hcap : pt.length + 16 ≤ cap) :
    gyAeadEncrypt 1 cap key nonce ad pt =
      match Sodium.aeadEncrypt .chacha20poly1305 key nonce ad pt with
      | none => .error .crypto
      | some ct => .ok ct := by
  have halg : aeadAlg 1 = some .chacha20poly1305 := rfl
  have hlen : ¬ nonce.length ≠ AeadAlg.nonceLen .chacha20poly1305 := fun h => h hn
  have hroom : ¬ cap < pt.length + AeadAlg.tagLen .chacha20poly1305 := Nat.not_lt.2 hcap
  have hgcm : ¬ (AeadAlg.chacha20poly1305 = .aes256gcm ∧ Sodium.aes256gcmAvailable β = false) :=
    fun h => AeadAlg.noConfusion h.1
  rw [gyAeadEncrypt, halg]
  dsimp only
  cases hct : Sodium.aeadEncrypt .chacha20poly1305 key nonce ad pt with
  | none => rw [if_neg hlen, if_neg hgcm, if_neg hroom]
  | some ct => rw [if_neg hlen, if_neg hgcm, if_neg hroom]

theorem aeadEncrypt_refusing (a : AeadAlg) (key nonce ad pt : Bytes Sym) :
    @Sodium.aeadEncrypt Sym Sym.refusing a key nonce ad pt =
      if 100 < pt.length then none else some (pt ++ Sym.tag key nonce ad pt a.tagLen) := rfl

section Refusing

variable {sec : DrSecrets Sym} {lv : Nat → Level Sym Unit} {s : DrState Sym}

/-- A header is short enough for the refusing AEAD, so the preparation succeeds. -/
theorem prepare_refusing (hb : BaseAt (symSuite false) 1 sec lv 1 s)
    (hpk : s.dhs.pk.length = 32) (salt : Bytes Sym) :
    ∃ p, @Engine.prepare _ _ _ _ Sym.refusing (classical (symSuite false)) (symSuite false) 8192
      (zeros 101) [] (.ok salt) s = .ok p ∧ p.ppos ≤ 104 := by
  obtain ⟨hdrp, henc, hlen, -⟩ := (classicalSpec (symIdeal false)).encode_ok
    ((classicalSpec (symIdeal false)).hdr_header (s := s) le_rfl trivial hb.dhs) hpk
  change hdrp.length ≤ 68 at hlen
  have hsl : heSaltLen = 16 := rfl
  have htag : aeadTagLen 1 = 16 := rfl
  obtain ⟨key, nonce, -, hder, hn, -⟩ := (symIdeal false).works.deriveKeyNonce_ok aeadUsable_sym
    (by decide : "he.aead".length ≤ 10) s.hks salt
  -- the header still seals: only longer plaintexts are refused
  have hhe : ∃ enc, @gyHeEncrypt _ _ (symSuite false) Sym.refusing 1 s.hks hdrp
      (gyFramePut (symSuite false).suiteId) (8192 - (2 + heSaltLen + 2)) (.ok salt) =
        .ok (salt, enc) := by
    rw [gyHeEncrypt, if_neg (by decide), if_neg (by omega)]
    simp only [Except.ok_bind, heDerive, hder]
    rw [@gyAeadEncrypt_chacha _ _ Sym.refusing _ _ _ _ _ hn (by omega), aeadEncrypt_refusing,
      if_neg (by omega)]
    exact ⟨_, rfl⟩
  obtain ⟨enc, hhe⟩ := hhe
  obtain ⟨hck, -, -⟩ := (symIdeal false).works.gyDrcKdfCk_eq s.cks
  have hid : ((classical (symSuite false)).base s).aeadId = 1 := hb.aeadId
  rw [← hid] at hhe
  refine ⟨_, @Engine.prepare_of _ _ _ _ Sym.refusing _ _ _ _ _ _ _ _ _ _ _ _ hb.haveCks hb.haveHks
    rfl (Nat.zero_le _) henc ?_ hhe hck, ?_⟩
  · rw [hid, length_zeros]
    omega
  · rw [hid]
    dsimp only
    omega

/-- The payload is too long for the refusing AEAD. -/
theorem sealPayload_refusing (hid : s.aeadId = 1) {p : Prepared Sym} (hp : p.ppos ≤ 104) :
    @Engine.sealPayload _ _ _ _ Sym.refusing (classical (symSuite false)) (symSuite false) 8192
      (zeros 101) [] p s = .error .crypto := by
  obtain ⟨key, nonce, -, hder, hn, -⟩ := (symIdeal false).works.deriveKeyNonce_ok aeadUsable_sym
    (by decide : "dr.aead".length ≤ 10) p.msgKey (be32Put s.ns)
  have hct : @gyAeadEncrypt _ Sym.refusing 1 (8192 - p.ppos) key nonce ([] ++ p.wire) (zeros 101) =
      .error .crypto := by
    have hlen : (zeros 101 : Bytes Sym).length = 101 := length_zeros 101
    rw [@gyAeadEncrypt_chacha _ _ Sym.refusing _ _ _ _ _ hn (by omega), aeadEncrypt_refusing,
      if_pos (by omega)]
  have hid' : ((classical (symSuite false)).base s).aeadId = 1 := hid
  apply @Engine.sealPayload_of_error _ _ _ _ Sym.refusing _ _ _ _ _ key nonce
  · rw [hid']
    exact hder
  · rw [hid']
    exact hct

/-- Without the exception for late failures the guarantee fails: the AEAD refuses the payload of an
initiator's first message, and the session is left one step further. -/
theorem encrypt_advances_on_failure :
    ∃ (st : DrState Sym) (pt : Bytes Sym) (e : GyErr) (st' : DrState Sym),
      gyDrInitAlice (symSuite false) 1 (symSecrets false) (Sym.curvePair 0).pk
        (.ok (Sym.curvePair 1)) = .ok st ∧
      @gyDrEncrypt _ _ (symSuite false) Sym.refusing 8192 pt [] (.ok (zeros 16)) st =
        (.error e, st') ∧ st' ≠ st := by
  obtain ⟨lv, hy⟩ := sync_sym
  have hb := hy.base .alice
  change BaseAt _ _ _ _ 1 symAlice at hb
  obtain ⟨p, hp, hpos⟩ := prepare_refusing hb rfl (zeros 16)
  refine ⟨symAlice, zeros 101, .crypto,
    @Engine.advanced _ _ _ (classical (symSuite false)) p.ckNext symAlice, gyDrInitAlice_sym,
    ?_, ?_⟩
  · show @Engine.encrypt _ _ _ _ Sym.refusing _ _ _ _ _ _ _ = _
    rw [@Engine.encrypt_eq _ _ _ _ Sym.refusing, hp]
    simp only [sealPayload_refusing hb.aeadId hpos]
  · intro h
    have hns : symAlice.ns + 1 = symAlice.ns := congrArg DrState.ns h
    simp at hns

end Refusing

end Geryon
