import Geryon.Ratchet.Schedule
import Geryon.Ratchet.TwoParty

/-!
# Genuine frames

What one call does on a session that is at a known level of the key schedule: encryption produces a
sealed frame of that level, and a receiver can take such a frame apart again. `EngineSpec` collects
what the two ratchet engines have to provide for this.
-/

namespace Geryon

variable {β σ η γ : Type} [Octet β] [Sodium β]

/-- A session's classical state at level `ℓ` of a key schedule: its own pair is the level's, its
sending chain the level's chain, its receiving chain that of the level below. -/
structure BaseAt (desc : SuiteDesc β) (id : UInt8) (sec : DrSecrets β) (lv : Nat → Level β γ)
    (ℓ : Nat) (b : DrState β) : Prop where
  aeadId : b.aeadId = id
  rk : b.rk = (lv ℓ).rk
  dhs : b.dhs = (lv ℓ).kp
  nhks : b.nhks = Schedule.hk sec lv (ℓ + 2)
  nhkr : b.nhkr = Schedule.hk sec lv (ℓ + 1)
  haveNhkr : b.haveNhkr = true
  haveCks : b.haveCks = decide (1 ≤ ℓ)
  haveHks : b.haveHks = decide (1 ≤ ℓ)
  haveDhr : b.haveDhr = decide (1 ≤ ℓ)
  haveCkr : b.haveCkr = decide (2 ≤ ℓ)
  haveHkr : b.haveHkr = decide (2 ≤ ℓ)
  cks : 1 ≤ ℓ → b.cks = chainKey desc (lv ℓ).ck b.ns.toNat
  hks : 1 ≤ ℓ → b.hks = Schedule.hk sec lv ℓ
  dhr : 1 ≤ ℓ → b.dhr = (lv (ℓ - 1)).kp.pk
  ckr : 2 ≤ ℓ → b.ckr = chainKey desc (lv (ℓ - 1)).ck b.nr.toNat
  hkr : 2 ≤ ℓ → b.hkr = Schedule.hk sec lv (ℓ - 1)
  skipped : b.skipped.Inv

omit [Sodium β] in
/-- The state at a level depends on the schedule up to that level only. -/
theorem BaseAt.congr {desc : SuiteDesc β} {id : UInt8} {sec : DrSecrets β}
    {lv lv' : Nat → Level β γ} {ℓ : Nat} {b : DrState β} (h : ∀ i ≤ ℓ, lv i = lv' i)
    (hb : BaseAt desc id sec lv ℓ b) : BaseAt desc id sec lv' ℓ b where
  aeadId := hb.aeadId
  rk := by rw [← h ℓ le_rfl]; exact hb.rk
  dhs := by rw [← h ℓ le_rfl]; exact hb.dhs
  nhks := by rw [← Schedule.hk_congr sec lv h le_rfl]; exact hb.nhks
  nhkr := by rw [← Schedule.hk_congr sec lv h (by omega)]; exact hb.nhkr
  haveNhkr := hb.haveNhkr
  haveCks := hb.haveCks
  haveHks := hb.haveHks
  haveDhr := hb.haveDhr
  haveCkr := hb.haveCkr
  haveHkr := hb.haveHkr
  cks := by rw [← h ℓ le_rfl]; exact hb.cks
  hks := by rw [← Schedule.hk_congr sec lv h (by omega)]; exact hb.hks
  dhr := by rw [← h (ℓ - 1) (by omega)]; exact hb.dhr
  ckr := by rw [← h (ℓ - 1) (by omega)]; exact hb.ckr
  hkr := by rw [← Schedule.hk_congr sec lv h (by omega)]; exact hb.hkr
  skipped := hb.skipped

/-- The classical state after a ratchet step from a state at some level: `mid` is the level the
received header belongs to, `new` the level the step opens. -/
def ratcheted (b : DrState β) (mid new : Level β γ) : DrState β :=
  { b with
    pn := b.ns, ns := 0, nr := 0
    dhr := mid.kp.pk, haveDhr := true
    hkr := b.nhkr, haveHkr := true
    ckr := mid.ck, haveCkr := true
    nhkr := mid.nhk, haveNhkr := true
    dhs := new.kp
    hks := b.nhks, haveHks := true
    rk := new.rk
    cks := new.ck, haveCks := true
    nhks := new.nhk, haveNhks := true }

omit [Sodium β] in
/-- A ratchet step and a walk to position `n` of the new chain move the state up two levels. -/
theorem BaseAt.ratcheted {desc : SuiteDesc β} {id : UInt8} {sec : DrSecrets β}
    {lv : Nat → Level β γ} {ℓ n : Nat} {b : DrState β} (hb : BaseAt desc id sec lv ℓ b)
    (new : Level β γ) {t : SkipStore β} (ht : t.Inv) (hn : n < 2 ^ 32) :
    BaseAt desc id sec (Function.update lv (ℓ + 2) new) (ℓ + 2)
      ((Geryon.ratcheted b (lv (ℓ + 1)) new).withRecv
        ⟨t, chainKey desc (lv (ℓ + 1)).ck n, UInt32.ofNat n⟩) := by
  -- only level `ℓ + 2` is new, so everything below is read off the old schedule
  have hold : ∀ i ≤ ℓ + 1, lv i = Function.update lv (ℓ + 2) new i := fun i hi =>
    (Function.update_of_ne (by omega) _ _).symm
  have hnew : Function.update lv (ℓ + 2) new (ℓ + 2) = new := Function.update_self ..
  have hnn : (UInt32.ofNat n).toNat = n := by
    rw [UInt32.toNat_ofNat', Nat.mod_eq_of_lt hn]
  have hhk : ∀ i ≤ ℓ + 3, Schedule.hk sec lv i =
      Schedule.hk sec (Function.update lv (ℓ + 2) new) i := fun i hi =>
    Schedule.hk_congr sec lv hold hi
  -- both flags of the receiving and of the sending chain are set from level 2 on
  have hone : decide (1 ≤ ℓ + 2) = true := by simp
  have htwo : decide (2 ≤ ℓ + 2) = true := by simp
  refine ⟨hb.aeadId, ?_, ?_, ?_, ?_, rfl, hone.symm, hone.symm, hone.symm, htwo.symm, htwo.symm,
    fun _ => ?_, fun _ => ?_, fun _ => ?_, fun _ => ?_, fun _ => ?_, ht⟩
  · rw [hnew]
    rfl
  · rw [hnew]
    rfl
  · rw [Schedule.hk_add_two _ _ (by omega), hnew]
    rfl
  · rw [← hhk _ le_rfl, Schedule.hk_add_two _ _ (by omega)]
    rfl
  · rw [hnew]
    rfl
  · rw [← hhk _ (by omega), ← hb.nhks]
    rfl
  · rw [show ℓ + 2 - 1 = ℓ + 1 by omega, ← hold _ le_rfl]
    rfl
  · rw [show ℓ + 2 - 1 = ℓ + 1 by omega, ← hold _ le_rfl]
    show _ = chainKey desc _ (UInt32.ofNat n).toNat
    rw [hnn]
    rfl
  · rw [show ℓ + 2 - 1 = ℓ + 1 by omega, ← hhk _ (by omega), ← hb.nhkr]
    rfl

/-- Two schedules have the same key pairs, and what the engine adds, up to a level. -/
def SamePairs (lv lv' : Nat → Level β γ) (ℓ : Nat) : Prop :=
  ∀ i ≤ ℓ, (lv i).kp = (lv' i).kp ∧ (lv i).x = (lv' i).x

omit [Octet β] [Sodium β] in
theorem SamePairs.of_eq {lv lv' : Nat → Level β γ} {ℓ : Nat} (h : ∀ i ≤ ℓ, lv i = lv' i) :
    SamePairs lv lv' ℓ := fun i hi => by
  rw [h i hi]
  exact ⟨rfl, rfl⟩

/-- What an engine provides: how its extra state, its headers and its derivations sit on the key
schedule, and that one ratchet step moves a session up two levels. -/
structure EngineSpec {desc : SuiteDesc β} (E : Engine β σ η) (I : IdealSuite desc) (γ : Type) where
  /-- Good random input for a ratchet step, with the curve pair in it. -/
  RandOk : RatchetRand β → Keypair β → Prop
  /-- The engine's extra state at a level. -/
  Ext : (Nat → Level β γ) → Nat → σ → Prop
  /-- A header of a level. -/
  Hdr : (Nat → Level β γ) → Nat → η → Prop
  /-- Level `ℓ + 1` is derived from level `ℓ` as its receiver will derive it. -/
  Link : (Nat → Level β γ) → Nat → Prop
  randOk_curve : ∀ {rnd kp}, RandOk rnd kp → rnd.curve = .ok kp ∧ I.genuine kp
  ext_congr : ∀ {lv lv' ℓ s}, SamePairs lv lv' ℓ → Ext lv ℓ s → Ext lv' ℓ s
  hdr_congr : ∀ {lv lv' ℓ h}, SamePairs lv lv' ℓ → Hdr lv ℓ h → Hdr lv' ℓ h
  link_congr : ∀ {lv lv' ℓ}, (∀ i ≤ ℓ + 1, lv i = lv' i) → Link lv ℓ → Link lv' ℓ
  link_kdf : ∀ {lv ℓ}, Link lv ℓ → ∃ ikm, gyDrcKdfRk desc (lv ℓ).rk ikm =
    .ok ⟨(lv (ℓ + 1)).rk, (lv (ℓ + 1)).ck, (lv (ℓ + 1)).nhk⟩
  ext_withBase : ∀ {lv ℓ s} (b : DrState β), Ext lv ℓ s → Ext lv ℓ (E.withBase b s)
  canSend : ∀ {lv ℓ s}, 1 ≤ ℓ → Ext lv ℓ s → E.canSend s = true
  hdr_header : ∀ {lv ℓ s}, 1 ≤ ℓ → Ext lv ℓ s → (E.base s).dhs = (lv ℓ).kp → Hdr lv ℓ (E.header s)
  header_pk : ∀ s, E.ratchetPk (E.header s) = (E.base s).dhs.pk
  header_pn : ∀ s, E.pn (E.header s) = (E.base s).pn
  header_n : ∀ s, E.n (E.header s) = (E.base s).ns
  encode_ok : ∀ {lv ℓ h}, Hdr lv ℓ h → (E.ratchetPk h).length = desc.curvePkLen →
    ∃ b, E.encode h E.headerMax = .ok b ∧ b.length ≤ E.headerMax ∧
      (∀ tag, E.encHeaderLenOk (b.length + tag) tag = true) ∧ b.length < 60000 ∧ E.decode b = .ok h
  headerCheck : ∀ {lv ℓ k s h}, Ext lv ℓ s → Hdr lv k h → 1 ≤ k → k % 2 ≠ ℓ % 2 →
    E.headerCheck s h = .ok ()
  ratchet : ∀ {id sec lv ℓ s h rnd kp}, BaseAt desc id sec lv ℓ (E.base s) → Ext lv ℓ s →
    Link lv ℓ → Hdr lv (ℓ + 1) h → E.ratchetPk h = (lv (ℓ + 1)).kp.pk →
    I.genuine (lv (ℓ + 1)).kp → RandOk rnd kp →
    ∃ s' new, E.dhRatchet rnd h s = (.ok (), s') ∧ new.kp = kp ∧
      E.base s' = ratcheted (E.base s) (lv (ℓ + 1)) new ∧
      Link (Function.update lv (ℓ + 2) new) (ℓ + 1) ∧
      Ext (Function.update lv (ℓ + 2) new) (ℓ + 2) s'

/-- The wire form of a message: header `h` with bytes `hdrp`, sealed into `enc` under the level's
header key, and the payload `ct` sealed under the message key of position `n`. -/
structure SealedWith {desc : SuiteDesc β} {E : Engine β σ η} {I : IdealSuite desc}
    (S : EngineSpec E I γ) (id : UInt8) (ad : Bytes β) (sec : DrSecrets β)
    (lv : Nat → Level β γ) (k n : Nat) (pn : UInt32) (pt wire : Bytes β)
    (h : η) (hdrp salt enc ct : Bytes β) : Prop where
  hdr : S.Hdr lv k h
  ratchetPk : E.ratchetPk h = (lv k).kp.pk
  pn_eq : E.pn h = pn
  n_eq : E.n h = UInt32.ofNat n
  encode : E.encode h E.headerMax = .ok hdrp
  length_salt : salt.length = heSaltLen
  length_enc : enc.length = hdrp.length + aeadTagLen id
  header : ∃ cap, hdrp.length + aeadTagLen id ≤ cap ∧
    gyHeEncrypt desc id (Schedule.hk sec lv k) hdrp (gyFramePut desc.suiteId) cap (.ok salt) =
      .ok (salt, enc)
  payload : ∃ cap key nonce,
    gyDrcDeriveAead desc (messageKey desc (chainKey desc (lv k).ck n)) id (UInt32.ofNat n) =
      .ok (key, nonce) ∧ nonce.length = aeadNonceLen id ∧ pt.length + aeadTagLen id ≤ cap ∧
    gyAeadEncrypt id cap key nonce (ad ++ Engine.headerWire salt enc) pt = .ok ct
  length_ct : ct.length = pt.length + aeadTagLen id
  wire_eq : wire = gyFramePut desc.suiteId ++ Engine.headerWire salt enc ++ ct

/-- `wire` is the frame of message `n` of level `k`, carrying `pt`. -/
def Sealed {desc : SuiteDesc β} {E : Engine β σ η} {I : IdealSuite desc} (S : EngineSpec E I γ)
    (id : UInt8) (ad : Bytes β) (sec : DrSecrets β) (lv : Nat → Level β γ) (k n : Nat)
    (pn : UInt32) (pt wire : Bytes β) : Prop :=
  ∃ h hdrp salt enc ct, SealedWith S id ad sec lv k n pn pt wire h hdrp salt enc ct

section

variable {desc : SuiteDesc β} {E : Engine β σ η} {I : IdealSuite desc} (S : EngineSpec E I γ)
  {id : UInt8} (hid : AeadUsable β id) {ad : Bytes β} {sec : DrSecrets β} {lv : Nat → Level β γ}

/-- A sealed frame stays one when later levels are added to the schedule. -/
theorem Sealed.congr {lv' : Nat → Level β γ} {k n : Nat} {pn : UInt32} {pt wire : Bytes β}
    (h : ∀ i ≤ k, lv i = lv' i) (hs : Sealed S id ad sec lv k n pn pt wire) :
    Sealed S id ad sec lv' k n pn pt wire := by
  obtain ⟨hd, hdrp, salt, enc, ct, hw⟩ := hs
  refine ⟨hd, hdrp, salt, enc, ct, S.hdr_congr (.of_eq h) hw.hdr, ?_, hw.pn_eq, hw.n_eq, hw.encode,
    hw.length_salt, hw.length_enc, ?_, ?_, hw.length_ct, hw.wire_eq⟩
  · rw [hw.ratchetPk, h k le_rfl]
  · rw [← Schedule.hk_congr sec lv h (Nat.le_add_right k 2)]
    exact hw.header
  · rw [← h k le_rfl]
    exact hw.payload

include hid

/-- Encryption at a level with a sending chain: with room in the buffer it produces the frame of the
next position and advances the chain, otherwise it changes nothing. -/
theorem encrypt_at {ℓ : Nat} {s : σ} (hℓ : 1 ≤ ℓ) (hb : BaseAt desc id sec lv ℓ (E.base s))
    (hx : S.Ext lv ℓ s) (hg : I.genuine (lv ℓ).kp) (had : ad.length ≤ E.adMax) (cap : Nat)
    (pt : Bytes β) {salt : Bytes β} (hsalt : salt.length = heSaltLen) :
    (∃ wire, E.encrypt desc cap pt ad (.ok salt) s =
        (.ok wire, E.withBase { E.base s with
          cks := nextChainKey desc (E.base s).cks, ns := (E.base s).ns + 1 } s) ∧
        Sealed S id ad sec lv ℓ (E.base s).ns.toNat (E.base s).pn pt wire) ∨
      ∃ e, cap < 2 + (heSaltLen + 2 + (E.headerMax + aeadTagLen id)) + pt.length + aeadTagLen id ∧
        E.encrypt desc cap pt ad (.ok salt) s = (.error e, s) := by
  have hpk : (E.ratchetPk (E.header s)).length = desc.curvePkLen := by
    rw [S.header_pk, hb.dhs]
    exact I.genuine_pk hg
  have hhdr := S.hdr_header hℓ hx hb.dhs
  obtain ⟨hdrp, henc, hmax, -, -, -⟩ := S.encode_ok hhdr hpk
  have hnad : ¬ E.adMax < ad.length := by omega
  -- the engine's own room check, in the terms of `RoomFor`
  by_cases hcap : cap < 2 + (heSaltLen + 2 + (hdrp.length + aeadTagLen id)) + pt.length +
      aeadTagLen id
  · right
    refine ⟨.arg, by omega, ?_⟩
    simp [Engine.encrypt, hb.haveCks, hb.haveHks, S.canSend hℓ hx, hℓ, hnad, henc, hb.aeadId, hcap]
  · left
    obtain ⟨enc, hhe, henclen⟩ :=
      I.works.gyHeEncrypt_ok hid (E.base s).hks (gyFramePut desc.suiteId)
      salt (by omega : hdrp.length + aeadTagLen id ≤ cap - (2 + heSaltLen + 2))
    obtain ⟨hck, -, -⟩ := I.works.gyDrcKdfCk_eq (E.base s).cks
    obtain ⟨key, nonce, -, hder, hn, -⟩ := I.works.deriveKeyNonce_ok hid
      (by decide : "dr.aead".length ≤ 10) (messageKey desc (E.base s).cks)
      (be32Put (E.base s).ns)
    obtain ⟨ct, hct, hctlen, -⟩ :=
      I.works.gyAeadEncrypt_ok hid key (ad ++ Engine.headerWire salt enc) hn
      (by omega : pt.length + aeadTagLen id ≤
        cap - (2 + (heSaltLen + 2 + (hdrp.length + aeadTagLen id))))
    refine ⟨gyFramePut desc.suiteId ++ Engine.headerWire salt enc ++ ct, ?_,
      E.header s, hdrp, salt, enc, ct, hhdr, ?_, S.header_pn s, ?_, henc, hsalt, henclen,
      ⟨cap - (2 + heSaltLen + 2), by omega, ?_⟩, ⟨_, key, nonce, ?_, hn, ?_, hct⟩, hctlen, rfl⟩
    · simp [Engine.encrypt, hb.haveCks, hb.haveHks, S.canSend hℓ hx, hℓ, hnad, henc,
        hb.aeadId, hcap,
        hhe, hck, gyDrcDeriveAead, hder, hct]
    · rw [S.header_pk, hb.dhs]
    · rw [S.header_n, UInt32.ofNat_toNat]
    · rw [← hb.hks hℓ]
      exact hhe
    · rw [← hb.cks hℓ, UInt32.ofNat_toNat]
      exact hder
    · omega

/-! ## Taking a frame apart -/

variable {k n : Nat} {pn : UInt32} {pt wire : Bytes β} {h : η} {hdrp salt enc ct : Bytes β}

/-- What the receiver's parser finds in a sealed frame. -/
def frameOf (desc : SuiteDesc β) (ad salt enc ct : Bytes β) : WireFrame β :=
  ⟨salt, enc, gyFramePut desc.suiteId, ad ++ Engine.headerWire salt enc, ct⟩

/-- The parser looks at the header of a sealed frame only: it finds the same parts whatever payload
of sufficient length stands behind that header. -/
theorem parseFrame_payload (hg : I.genuine (lv k).kp) (had : ad.length ≤ E.adMax)
    (hs : SealedWith S id ad sec lv k n pn pt wire h hdrp salt enc ct) {ct' : Bytes β}
    (hct : aeadTagLen id ≤ ct'.length) :
    E.parseFrame desc id (gyFramePut desc.suiteId ++ Engine.headerWire salt enc ++ ct') ad =
      .ok (frameOf desc ad salt enc ct') := by
  have hpk : (E.ratchetPk h).length = desc.curvePkLen := by
    rw [hs.ratchetPk]
    exact I.genuine_pk hg
  have htag : aeadTagLen id ≤ 32 := by
    obtain ⟨a, ha, -⟩ := hid
    cases a <;> simp [aeadTagLen, ha, AeadAlg.tagLen]
  obtain ⟨b, hb, -, hok, hsmall, -⟩ := S.encode_ok hs.hdr hpk
  obtain rfl : b = hdrp := Except.ok.inj (hb.symm.trans hs.encode)
  have hsalt := hs.length_salt
  have henc := hs.length_enc
  have hsl : heSaltLen = 16 := rfl
  generalize hwire : gyFramePut desc.suiteId ++ Engine.headerWire salt enc ++ ct' = wire'
  have hlen : wire'.length = 2 + (heSaltLen + 2 + enc.length) + ct'.length := by
    simp [← hwire, Engine.headerWire, hsalt]
    omega
  have hfc : gyFrameCheck wire' desc.suiteId = .ok () := by
    rw [← hwire, List.append_assoc]
    exact gyFrameCheck_gyFramePut _ _
  -- the length field is read back, since the encrypted header is below 60000 octets
  have hehl : (be16Get (wire'.drop (2 + heSaltLen))).toNat = enc.length := by
    have hd : wire'.drop (2 + heSaltLen) = be16Put (UInt16.ofNat enc.length) ++ (enc ++ ct') :=
      drop_field (gyFramePut desc.suiteId ++ salt)
        (by simp [← hwire, Engine.headerWire]) (by simp [hsalt])
    rw [hd, be16Get_be16Put, UInt16.toNat_ofNat']
    exact Nat.mod_eq_of_lt (by omega)
  -- the four parts of the frame, each at its offset
  have h1 : (wire'.drop 2).take heSaltLen = salt :=
    take_drop_field (gyFramePut desc.suiteId) (be16Put (UInt16.ofNat enc.length) ++ enc ++ ct')
      (by simp [← hwire, Engine.headerWire]) (by simp) hsalt
  have h2 : (wire'.drop (2 + heSaltLen + 2)).take enc.length = enc :=
    take_drop_field (gyFramePut desc.suiteId ++ salt ++ be16Put (UInt16.ofNat enc.length)) ct'
      (by simp [← hwire, Engine.headerWire]) (by simp [hsalt]; omega) rfl
  have h3 : wire'.take 2 = gyFramePut desc.suiteId :=
    take_drop_field [] (Engine.headerWire salt enc ++ ct') (by simp [← hwire]) rfl (by simp)
  have h4 : (wire'.drop 2).take (heSaltLen + 2 + enc.length) = Engine.headerWire salt enc :=
    take_drop_field (gyFramePut desc.suiteId) ct' (by simp [← hwire]) (by simp)
      (by simp [Engine.headerWire, hsalt]; omega)
  have h5 : wire'.drop (2 + (heSaltLen + 2 + enc.length)) = ct' :=
    drop_field (gyFramePut desc.suiteId ++ Engine.headerWire salt enc)
      (by simp [← hwire]) (by simp [Engine.headerWire, hsalt]; omega)
  have hok' : E.encHeaderLenOk enc.length (aeadTagLen id) = true := by
    rw [henc]
    exact hok _
  rw [Engine.parseFrame, if_neg (by omega), hfc]
  simp only [bind, Except.bind, hehl, h1, h2, h3, h4, h5, hok']
  rw [if_neg (by omega), if_neg (by simp), if_neg (by omega)]
  rfl

theorem parseFrame_sealed (hg : I.genuine (lv k).kp) (had : ad.length ≤ E.adMax)
    (hs : SealedWith S id ad sec lv k n pn pt wire h hdrp salt enc ct) :
    E.parseFrame desc id wire ad = .ok (frameOf desc ad salt enc ct) := by
  rw [hs.wire_eq]
  exact parseFrame_payload S hid hg had hs (by rw [hs.length_ct]; omega)

/-- A sealed header opens under its own level's header key and under no other key. -/
theorem openHeader_sealed (hg : I.genuine (lv k).kp) {b : DrState β} (hb : b.aeadId = id)
    (hs : SealedWith S id ad sec lv k n pn pt wire h hdrp salt enc ct)
    (hlen : (Schedule.hk sec lv k).length = 32) {hk' : Bytes β} (hlen' : hk'.length = 32) :
    (hk' = Schedule.hk sec lv k →
      E.openHeader desc b (frameOf desc ad salt enc ct) hk' = .ok hdrp) ∧
    (hk' ≠ Schedule.hk sec lv k →
      ∃ e, E.openHeader desc b (frameOf desc ad salt enc ct) hk' = .error e) := by
  have hpk : (E.ratchetPk h).length = desc.curvePkLen := by
    rw [hs.ratchetPk]
    exact I.genuine_pk hg
  obtain ⟨b', hb', hmax, -⟩ := S.encode_ok hs.hdr hpk
  obtain rfl : b' = hdrp := Except.ok.inj (hb'.symm.trans hs.encode)
  obtain ⟨cap, hcap, henc⟩ := hs.header
  simp only [Engine.openHeader, frameOf, hb]
  exact I.gyHeDecrypt_sealed hid hlen hlen' hcap hmax henc

omit hid in
theorem decode_sealed (hg : I.genuine (lv k).kp)
    (hs : SealedWith S id ad sec lv k n pn pt wire h hdrp salt enc ct) : E.decode hdrp = .ok h := by
  have hpk : (E.ratchetPk h).length = desc.curvePkLen := by
    rw [hs.ratchetPk]
    exact I.genuine_pk hg
  obtain ⟨b', hb', -, -, -, hdec⟩ := S.encode_ok hs.hdr hpk
  obtain rfl : b' = hdrp := Except.ok.inj (hb'.symm.trans hs.encode)
  exact hdec

/-- The payload opens under the message key of its position, into a buffer that holds it. -/
theorem openPayload_sealed {b : DrState β} (hb : b.aeadId = id)
    (hs : SealedWith S id ad sec lv k n pn pt wire h hdrp salt enc ct) (cap : Nat) :
    Engine.openPayload desc b (frameOf desc ad salt enc ct) cap
        (messageKey desc (chainKey desc (lv k).ck n)) (UInt32.ofNat n) =
      if pt.length ≤ cap then .ok pt else .error .arg := by
  obtain ⟨capP, key, nonce, hder, hn, hcapP, hct⟩ := hs.payload
  obtain ⟨ct', hct', -, hopen⟩ := I.works.gyAeadEncrypt_ok hid key
    (ad ++ Engine.headerWire salt enc) hn hcapP
  obtain rfl : ct' = ct := Except.ok.inj (hct'.symm.trans hct)
  simp only [Engine.openPayload, hb, hder, frameOf, bind, Except.bind]
  exact hopen cap

end
end Geryon
