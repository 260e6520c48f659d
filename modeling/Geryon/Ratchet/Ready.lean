import Geryon.Ratchet.Receipt
import Geryon.Ratchet.Sending

/-!
# Sessions that can send

A session can send once it has a sending chain with its header key, and nothing it does afterwards
takes them away. A session that has sealed or opened a frame has shown the rest of what the next
encryption needs: associated data that fit and an AEAD of this machine. From there on an encryption
fails only for want of room, of randomness, or of a primitive.

## Main results

* `Engine.Ready.encrypt_ok`: such a session encrypts into a large enough buffer;
* `Engine.ready_of_encrypt`, `Engine.Ready.decrypt`, `Engine.ready_of_first`: how sessions become
  ready and stay so.
-/

namespace Geryon

variable {β : Type} [Octet β]

section Aead

variable [Sodium β]

omit [Octet β] in
/-- An AEAD that has sealed something is usable. -/
theorem aeadUsable_of_encrypt {id : UInt8} {cap : Nat} {key nonce ad pt ct : Bytes β}
    (h : gyAeadEncrypt id cap key nonce ad pt = .ok ct) : AeadUsable β id := by
  unfold gyAeadEncrypt at h
  split at h
  · cases h
  · next a ha =>
    split_ifs at h with h1 h2 h3
    refine ⟨a, ha, fun hgcm => ?_⟩
    by_contra hno
    exact h2 ⟨hgcm, by simpa using hno⟩

omit [Octet β] in
/-- An AEAD that has opened something is usable. -/
theorem aeadUsable_of_decrypt {id : UInt8} {cap : Nat} {key nonce ad pt ct : Bytes β}
    (h : gyAeadDecrypt id cap key nonce ad ct = .ok pt) : AeadUsable β id := by
  unfold gyAeadDecrypt at h
  split at h
  · cases h
  · next a ha =>
    split_ifs at h with h1 h2 h3
    refine ⟨a, ha, fun hgcm => ?_⟩
    by_contra hno
    exact h2 ⟨hgcm, by simpa using hno⟩

end Aead

/-! ## The ratchet step opens a sending chain -/

section Steps

open Cmd

variable (desc : SuiteDesc β)

/-- A classical ratchet step that succeeds has a sending chain and its header key. -/
theorem dhRatchet_sends {rnd : RatchetRand β} {pk : Bytes β} {b b' : DrState β}
    (h : dhRatchet desc rnd pk b = (.ok (), b')) :
    b'.aeadId = b.aeadId ∧ b'.haveCks = true ∧ b'.haveHks = true := by
  simp only [dhRatchet, startEpoch, rotateHkr, recvRoot, rotateHks, sendRoot, ratchetDh,
    modify_bind_apply, get_bind_apply, bind_bind_apply, lift_bind_eq_ok_iff] at h
  obtain ⟨dh, -, r, -, kp, -, dh', -, r', -, h⟩ := h
  obtain ⟨-, rfl⟩ := Prod.mk.inj h
  exact ⟨rfl, rfl, rfl⟩

/-- The AEAD of a hybrid session. -/
def HybridState.aeadId (s : HybridState β) : UInt8 := s.base.aeadId

theorem keepsAead_recvRoot (ikm : Bytes β) :
    Keeps (SameBy DrState.aeadId) (recvRoot desc ikm) := by
  refine keeps_get.bind fun st => (keeps_lift _).bind fun r => ?_
  exact keeps_modify fun _ => rfl

theorem keepsAead_hybridRecvStep (confirm : Bool) (hd : DrHybridHeader β) :
    Keeps (SameBy HybridState.aeadId) (hybridRecvStep desc confirm hd) := by
  have hrot : Keeps (SameBy DrState.aeadId) (rotateHkr (β := β)) := fun _ => rfl
  refine Keeps.bind (keeps_onBase hrot) fun _ => keeps_get.bind fun st => ?_
  refine (keeps_lift _).bind fun kemSs => ?_
  refine Keeps.bind (keeps_onBase (keeps_ratchetDh desc (R := SameBy DrState.aeadId))) fun dh => ?_
  have htail : ∀ cs : Option (Bytes β), Keeps (SameBy HybridState.aeadId) (do
      let hdh ← Cmd.lift (hybridMix desc cs kemSs dh)
      onBase (recvRoot desc hdh)) := fun cs =>
    (keeps_lift _).bind fun hdh => keeps_onBase (keepsAead_recvRoot desc hdh)
  refine Keeps.ite ?_ ((keeps_pure _).bind htail)
  exact ((keeps_lift _).bind fun c => keeps_pure _).bind htail

omit [Octet β] in
theorem keepsAead_hybridRefresh (rnd : RatchetRand β) :
    Keeps (SameBy HybridState.aeadId) (hybridRefresh rnd) := by
  refine Keeps.bind (fun _ => rfl) fun _ => keeps_get.bind fun st => ?_
  -- both branches end in the new curve pair
  have hpair : ∀ regen : Bool, Keeps (SameBy HybridState.aeadId) (do
      let kp ← Cmd.lift rnd.curve
      Cmd.modify fun st : HybridState β => { st with base := { st.base with dhs := kp } }
      return regen) :=
    fun _ => (keeps_lift _).bind fun kp => Keeps.bind (fun _ => rfl) fun _ => keeps_pure _
  refine Keeps.ite ?_ ((keeps_pure _).bind hpair)
  exact (keeps_lift _).bind fun r => Keeps.bind (fun _ => rfl) fun _ => (keeps_pure _).bind hpair

/-- What a hybrid session needs to send, next to its AEAD. -/
def HybridState.Sends (s : HybridState β) : Prop :=
  s.base.haveCks = true ∧ s.base.haveHks = true ∧ s.haveKemCt = true

/-- The sending half of a hybrid step that succeeds fills the sending chain, its header key and the
ciphertext of its headers. -/
theorem hybridSendStep_sends {rnd : RatchetRand β} {sent : Bool} {s s' : HybridState β}
    (h : hybridSendStep desc rnd s = (.ok sent, s')) : s'.aeadId = s.aeadId ∧ s'.Sends := by
  obtain ⟨_, s₁, hrot, h⟩ := bind_eq_ok_iff.1 h
  obtain ⟨-, rfl⟩ := Prod.mk.inj hrot
  rw [get_bind_apply] at h
  obtain ⟨r, -, h⟩ := lift_bind_eq_ok_iff.1 h
  simp only [modify_bind_apply] at h
  -- with or without a confirmation, the root derivation comes last
  have htail : ∀ (cs : Option (Bytes β)) (t : HybridState β), t.base.haveHks = true →
      t.haveKemCt = true → (do
        let dh ← onBase (ratchetDh desc)
        let hdh ← Cmd.lift (hybridMix desc cs r.2 dh)
        onBase (sendRoot desc hdh)
        return s.confirmPending : Cmd GyErr (HybridState β) Bool) t =
          (.ok sent, s') → s'.aeadId = t.aeadId ∧ s'.Sends := by
    intro cs t hhks hct ht
    obtain ⟨dh, t₁, hdh, ht⟩ := bind_eq_ok_iff.1 ht
    have hsame : t₁.base = t.base :=
      (Keeps.of_apply (keeps_onBase (keeps_ratchetDh desc (R := SameBy id))) hdh)
    have hkem : t₁.haveKemCt = t.haveKemCt := by
      rw [← (Prod.mk.inj hdh).2]
    obtain ⟨hdh', -, ht⟩ := lift_bind_eq_ok_iff.1 ht
    obtain ⟨_, t₂, hroot, ht⟩ := bind_eq_ok_iff.1 ht
    obtain ⟨-, rfl⟩ := Prod.mk.inj ht
    obtain ⟨hok, rfl⟩ := Prod.mk.inj hroot
    have hfill : sendRoot desc hdh' t₁.base = (.ok (), (sendRoot desc hdh' t₁.base).2) :=
      Prod.ext hok rfl
    rw [sendRoot, get_bind_apply] at hfill
    obtain ⟨keys, -, hfill⟩ := lift_bind_eq_ok_iff.1 hfill
    have hend := (Prod.mk.inj hfill).2
    refine ⟨?_, ?_, ?_, hkem.trans hct⟩
    · show (sendRoot desc hdh' t₁.base).2.aeadId = t.base.aeadId
      rw [sendRoot, get_bind_apply, ← hend, ← hsame]
    · show (sendRoot desc hdh' t₁.base).2.haveCks = true
      rw [sendRoot, get_bind_apply, ← hend]
    · show (sendRoot desc hdh' t₁.base).2.haveHks = true
      rw [sendRoot, get_bind_apply, ← hend, hsame]
      exact hhks
  simp only [Cmd.ite_apply] at h
  split at h
  · obtain ⟨c, -, h⟩ := lift_bind_eq_ok_iff.1 h
    simp only [modify_bind_apply, pure_bind_apply] at h
    obtain ⟨haead, hsends⟩ := htail (some c.2) _ (by rfl) (by rfl) h
    exact ⟨haead, hsends⟩
  · rw [pure_bind_apply] at h
    obtain ⟨haead, hsends⟩ := htail none _ (by rfl) (by rfl) h
    exact ⟨haead, hsends⟩

/-- A hybrid ratchet step that succeeds has a sending chain, its header key and a ciphertext for its
headers. -/
theorem hybridDhRatchet_sends {rnd : RatchetRand β} {hd : DrHybridHeader β} {s s' : HybridState β}
    (h : hybridDhRatchet desc rnd hd s = (.ok (), s')) : s'.aeadId = s.aeadId ∧ s'.Sends := by
  rw [hybridDhRatchet, get_bind_apply] at h
  -- the step of the source, one stage a line
  obtain ⟨confirm, -, h⟩ := lift_bind_eq_ok_iff.1 h
  obtain ⟨_, s₁, hstart, h⟩ := bind_eq_ok_iff.1 h
  obtain ⟨-, rfl⟩ := Prod.mk.inj hstart
  obtain ⟨_, s₂, hek, h⟩ := bind_eq_ok_iff.1 h
  obtain ⟨_, s₃, hrecv, h⟩ := bind_eq_ok_iff.1 h
  obtain ⟨regen, s₄, hfresh, h⟩ := bind_eq_ok_iff.1 h
  obtain ⟨sent, s₅, hsend, h⟩ := bind_eq_ok_iff.1 h
  -- only the send step touches what sending reads
  have h₂ : s₂.base = _ := (keeps_cacheRemoteEk hd).of_apply hek
  have h₃ : s₃.aeadId = s₂.aeadId := (keepsAead_hybridRecvStep desc confirm hd).of_apply hrecv
  have h₄ : s₄.aeadId = s₃.aeadId := (keepsAead_hybridRefresh rnd).of_apply hfresh
  obtain ⟨h₅, hcks, hhks, hkem⟩ := hybridSendStep_sends desc hsend
  have hlast : s'.base = s₅.base := (keeps_hybridTransition regen sent confirm _).of_apply h
  have hct : s'.haveKemCt = s₅.haveKemCt := by
    have hk : Keeps (SameBy HybridState.haveKemCt)
        (hybridTransition (β := β) regen sent confirm (decide (s.pqState = .confirmSent))) := by
      refine Keeps.bind (fun _ => rfl) fun _ => Keeps.bind (fun st => ?_) fun _ =>
        Keeps.bind (fun st => ?_) fun _ => fun st => ?_
      · cases sent <;> rfl
      · cases confirm <;> rfl
      · show HybridState.haveKemCt (if _ then _ else _) = _
        split <;> rfl
    exact hk.of_apply h
  refine ⟨?_, ?_, ?_, hct.trans hkem⟩
  · rw [HybridState.aeadId, hlast]
    show s₅.aeadId = _
    rw [h₅, h₄, h₃, HybridState.aeadId, h₂]
    rfl
  · rw [hlast, hcks]
  · rw [hlast, hhks]

end Steps

/-! ## Ready sessions -/

/-- What the results below use of an engine. -/
structure Engine.Sends {σ η : Type} (E : Engine β σ η) (desc : SuiteDesc β) : Prop where
  canSend_withBase : ∀ b s, E.canSend (E.withBase b s) = E.canSend s
  ratchet_sends : ∀ {rnd h s s'}, E.dhRatchet rnd h s = (.ok (), s') →
    (E.base s').aeadId = (E.base s).aeadId ∧ (E.base s').haveCks = true ∧
      (E.base s').haveHks = true ∧ E.canSend s' = true
  encode_ok : ∀ [Sodium β], WorkingSuite desc → ∀ s, ∃ hdrp,
    E.encode (E.header s) E.headerMax = .ok hdrp ∧ hdrp.length ≤ E.headerMax

theorem sends_classical (desc : SuiteDesc β) : (classical desc).Sends desc where
  canSend_withBase _ _ := rfl
  ratchet_sends h := by
    obtain ⟨haead, hcks, hhks⟩ := dhRatchet_sends desc h
    exact ⟨haead, hcks, hhks, rfl⟩
  encode_ok W s := by
    have hle := W.curvePkLen_le
    have hmax : (classical desc).headerMax = 4 + curvePkMax + 4 + 4 := rfl
    refine ⟨_, if_neg (by omega), ?_⟩
    simp only [List.length_append, length_be32Put, length_fixed]
    omega

theorem sends_hybrid (desc : SuiteDesc β) : (hybrid desc).Sends desc where
  canSend_withBase _ _ := rfl
  ratchet_sends h := by
    obtain ⟨haead, hcks, hhks, hkem⟩ := hybridDhRatchet_sends desc h
    exact ⟨haead, hcks, hhks, hkem⟩
  encode_ok W s := by
    have h1 := W.curvePkLen_le
    have h2 := W.kemCtLen_le
    have h3 := W.kemPkLen_le
    have hmax : (hybrid desc).headerMax =
      4 + curvePkMax + kemCtMax + 4 + 4 + kemEkMax + kemCtMax := rfl
    show ∃ hdrp, gyDrHybridHeaderEncode desc _ _ = .ok hdrp ∧ _
    generalize (hybrid desc).header s = h
    rw [gyDrHybridHeaderEncode, if_neg (by split_ifs <;> omega)]
    refine ⟨_, rfl, ?_⟩
    cases ekPresent h.flags <;> cases confirmPresent h.flags <;>
      simp only [Bool.false_eq_true, if_true, if_false, List.length_append, length_be32Put,
        length_fixed, List.length_nil] <;> omega

namespace Engine

variable {σ η : Type} [Sodium β] {E : Engine β σ η} {desc : SuiteDesc β}

/-- The session has a sending chain, the associated data fit, and its AEAD is usable. -/
structure Ready (E : Engine β σ η) (ad : Bytes β) (s : σ) : Prop where
  haveCks : (E.base s).haveCks = true
  haveHks : (E.base s).haveHks = true
  canSend : E.canSend s = true
  ad_le : ad.length ≤ E.adMax
  aead : AeadUsable β (E.base s).aeadId

omit [Octet β] in
theorem Ready.congr {ad : Bytes β} {s s' : σ} (h : E.Ready ad s)
    (haead : (E.base s').aeadId = (E.base s).aeadId) (hcks : (E.base s').haveCks = true)
    (hhks : (E.base s').haveHks = true) (hsend : E.canSend s' = true) : E.Ready ad s' :=
  ⟨hcks, hhks, hsend, h.ad_le, haead ▸ h.aead⟩

/-- A ready session encrypts into a buffer that holds any frame of the plaintext. -/
theorem Ready.encrypt_ok (W : WorkingSuite desc) (hE : E.Sends desc) {ad : Bytes β} {s : σ}
    (h : E.Ready ad s) {cap : Nat} {pt : Bytes β}
    (hcap : RoomFor E (E.base s).aeadId pt cap) (salt : Bytes β) :
    ∃ frame, (E.encrypt desc cap pt ad (.ok salt) s).1 = .ok frame := by
  obtain ⟨hdrp, henc, hmax⟩ := hE.encode_ok W s
  unfold RoomFor at hcap
  obtain ⟨enc, hhe, -⟩ := W.gyHeEncrypt_ok h.aead (E.base s).hks (gyFramePut desc.suiteId) salt
    (by omega : hdrp.length + aeadTagLen (E.base s).aeadId ≤ cap - (2 + heSaltLen + 2))
  obtain ⟨hck, -, -⟩ := W.gyDrcKdfCk_eq (E.base s).cks
  have hp : E.prepare desc cap pt ad (.ok salt) s = _ :=
    prepare_of h.haveCks h.haveHks h.canSend h.ad_le henc (by omega) hhe hck
  obtain ⟨key, nonce, -, hder, hn, -⟩ := W.deriveKeyNonce_ok h.aead
    (by decide : "dr.aead".length ≤ 10) (messageKey desc (E.base s).cks) (be32Put (E.base s).ns)
  obtain ⟨ct, hct, -, -⟩ := W.gyAeadEncrypt_ok h.aead key (ad ++ headerWire salt enc) hn
    (by omega : pt.length + aeadTagLen (E.base s).aeadId ≤
      cap - (2 + (heSaltLen + 2 + (hdrp.length + aeadTagLen (E.base s).aeadId))))
  refine ⟨gyFramePut desc.suiteId ++ headerWire salt enc ++ ct, ?_⟩
  rw [encrypt_eq, hp]
  simp only [sealPayload, gyDrcDeriveAead, hder, hct, Except.ok_bind]

/-- A session that has encrypted was ready, and still is. -/
theorem ready_of_encrypt (hE : E.Sends desc) {cap : Nat} {pt ad frame : Bytes β}
    {salt : Except GyErr (Bytes β)} {s : σ}
    (h : (E.encrypt desc cap pt ad salt s).1 = .ok frame) :
    E.Ready ad s ∧ E.Ready ad (E.encrypt desc cap pt ad salt s).2 := by
  rw [encrypt_eq] at h ⊢
  cases hp : E.prepare desc cap pt ad salt s with
  | error e =>
    rw [hp] at h
    cases h
  | ok p =>
    rw [hp] at h
    obtain ⟨⟨key, nonce⟩, -, h⟩ := Except.bind_eq_ok_iff.1 h
    obtain ⟨ct, hct, -⟩ := Except.bind_eq_ok_iff.1 h
    rw [prepare] at hp
    -- the refusals come before anything is encoded
    split_ifs at hp with hflags had
    simp only [Bool.or_eq_true, Bool.not_eq_true', not_or, Bool.not_eq_false] at hflags
    obtain ⟨⟨hcks, hhks⟩, hsend⟩ := hflags
    have hready : E.Ready ad s := ⟨hcks, hhks, hsend, by omega, aeadUsable_of_encrypt hct⟩
    show E.Ready ad s ∧ E.Ready ad (E.advanced p.ckNext s)
    refine ⟨hready, hready.congr ?_ ?_ ?_ ?_⟩
    · rw [advanced, E.base_withBase]
    · rw [advanced, E.base_withBase]
      exact hcks
    · rw [advanced, E.base_withBase]
      exact hhks
    · rw [advanced, hE.canSend_withBase]
      exact hsend

/-! ### Decryption -/

/-- What of a session an encryption looks at, the keys apart. -/
def sendView (E : Engine β σ η) (s : σ) : UInt8 × Bool × Bool × Bool :=
  ((E.base s).aeadId, (E.base s).haveCks, (E.base s).haveHks, E.canSend s)

omit [Sodium β] in
theorem sendView_skipForward [DecidableEq β] (hE : E.Sends desc) {to_ : UInt32}
    {hk : Bytes β} {s s' : σ}
    (h : E.skipForward desc to_ hk s = (.ok (), s')) : E.sendView s' = E.sendView s := by
  rw [skipForward_apply] at h
  obtain ⟨-, rfl⟩ := Prod.mk.inj h
  rw [sendView, sendView, E.base_withBase, hE.canSend_withBase]
  rfl

omit [Sodium β] in
/-- A walk to the header's number leaves the sending side, or ratchets and fills it. -/
theorem reach_sends [DecidableEq β] (hE : E.Sends desc) {rnd : RatchetRand β} {h : η} {s s' : σ}
    (hr : E.reach desc rnd h s = (.ok (), s')) :
    E.sendView s' = ((E.base s).aeadId, true, true, true) ∨
      E.sendView s' = E.sendView s ∧ (E.base s).haveDhr = true := by
  simp only [reach, Cmd.get_bind_apply, Cmd.ite_apply] at hr
  -- a ratchet step sets up sending anew; on the same chain nothing of it changes
  split at hr
  · left
    obtain ⟨-, -, s₁, s₂, hfin, hrat, hwalk⟩ := newRemote_ok hr
    have hold : E.sendView s₁ = E.sendView s := by
      rw [finishOld, Cmd.get_bind_apply, Cmd.ite_apply] at hfin
      split at hfin
      · exact sendView_skipForward hE hfin
      · obtain ⟨-, rfl⟩ := Prod.mk.inj hfin
        rfl
    obtain ⟨haead, hcks, hhks, hsend⟩ := hE.ratchet_sends hrat
    rw [sendView_skipForward hE hwalk, sendView, haead, hcks, hhks, hsend]
    exact congrArg (fun v => (v.1, true, true, true)) hold
  · next hsame =>
    obtain ⟨-, -, -, hwalk⟩ := sameRemote_ok hr
    refine Or.inr ⟨sendView_skipForward hE hwalk, ?_⟩
    by_contra hno
    exact hsame (by simp [hno])

/-- A message that comes through the chain path leaves the sending side, or ratchets and fills it;
and its payload was opened with a usable AEAD. -/
theorem chainPath_sends [DecidableEq β] (hE : E.Sends desc) {rnd : RatchetRand β}
    {fr : WireFrame β} {cap : Nat} {h : η} {pt : Bytes β} {s s' : σ}
    (hr : E.chainPath desc rnd fr cap h s = (.ok pt, s')) :
    AeadUsable β (E.base s).aeadId ∧
      (E.sendView s' = ((E.base s).aeadId, true, true, true) ∨
        E.sendView s' = E.sendView s ∧ (E.base s).haveDhr = true) := by
  rw [chainPath] at hr
  obtain ⟨_, s₁, hreach, hr⟩ := Cmd.bind_eq_ok_iff.1 hr
  rw [consume, Cmd.get_bind_apply] at hr
  obtain ⟨⟨msgKey, ckNext⟩, -, hr⟩ := Cmd.lift_bind_eq_ok_iff.1 hr
  simp only [Cmd.modify_bind_apply] at hr
  obtain ⟨pt', hopen, hr⟩ := Cmd.lift_bind_eq_ok_iff.1 hr
  rw [Cmd.modify_bind_apply] at hr
  obtain ⟨-, rfl⟩ := Prod.mk.inj hr
  -- opening the payload touches the receiving side only
  have hview : ∀ b : DrState β, b.aeadId = (E.base s₁).aeadId →
      b.haveCks = (E.base s₁).haveCks → b.haveHks = (E.base s₁).haveHks →
      E.sendView (E.withBase b s₁) = E.sendView s₁ := by
    intro b h1 h2 h3
    rw [sendView, sendView, E.base_withBase, hE.canSend_withBase, h1, h2, h3]
  have haead : (E.base s₁).aeadId = (E.base s).aeadId := by
    rcases reach_sends hE hreach with h | ⟨h, -⟩
    · exact congrArg Prod.fst h
    · exact congrArg Prod.fst h
  obtain ⟨⟨key, nonce⟩, -, hdec⟩ := Except.bind_eq_ok_iff.1 hopen
  refine ⟨haead ▸ aeadUsable_of_decrypt hdec, ?_⟩
  simp only [E.base_withBase, E.withBase_withBase]
  rw [hview _ (by rfl) (by rfl) (by rfl)]
  exact reach_sends hE hreach

/-- A ready session that has decrypted is ready. -/
theorem Ready.decrypt [DecidableEq β] (hE : E.Sends desc) {rnd : RatchetRand β} {cap : Nat}
    {msg ad pt : Bytes β} {s : σ} (h : E.Ready ad s)
    (hok : (E.decryptAssoc desc rnd cap msg ad s).1.1 = .ok pt) :
    E.Ready ad (E.decryptAssoc desc rnd cap msg ad s).2 := by
  have hof : ∀ {s'}, E.sendView s' = ((E.base s).aeadId, true, true, true) → E.Ready ad s' := by
    intro s' hv
    simp only [sendView, Prod.mk.injEq] at hv
    exact h.congr hv.1 hv.2.1 hv.2.2.1 hv.2.2.2
  have hsame : E.sendView s = ((E.base s).aeadId, true, true, true) := by
    rw [sendView, h.haveCks, h.haveHks, h.canSend]
  obtain ⟨i, -, hst⟩ | ⟨fr, hdrp, hd, -, -, -, hchain⟩ := decryptAssoc_ok hok
  · apply hof
    rw [hst, ← hsame, sendView, sendView, E.base_withBase, hE.canSend_withBase]
  · rcases (chainPath_sends hE hchain).2 with hv | ⟨hv, -⟩
    · exact hof hv
    · exact hof (hv.trans hsame)

/-- A session without a remote ratchet key and without skipped keys is ready once it has
decrypted. -/
theorem ready_of_first [DecidableEq β] (hE : E.Sends desc) {rnd : RatchetRand β} {cap : Nat}
    {msg ad pt : Bytes β} {s : σ} (hdhr : (E.base s).haveDhr = false)
    (hskip : (E.base s).skipped.ent = [])
    (hok : (E.decryptAssoc desc rnd cap msg ad s).1.1 = .ok pt) :
    E.Ready ad (E.decryptAssoc desc rnd cap msg ad s).2 := by
  obtain ⟨i, hi, -⟩ | ⟨fr, hdrp, hd, hfr, -, -, hchain⟩ := decryptAssoc_ok hok
  · rw [hskip] at hi
    cases hi
  · obtain ⟨haead, hv⟩ := chainPath_sends hE hchain
    rw [hdhr] at hv
    simp only [Bool.false_eq_true, and_false, or_false, sendView, Prod.mk.injEq] at hv
    refine ⟨hv.2.1, hv.2.2.1, hv.2.2.2, ?_, hv.1 ▸ haead⟩
    by_contra hlong
    rw [parseFrame, if_pos (by omega)] at hfr
    cases hfr

end Engine

end Geryon
