import Geryon.Ratchet.DoubleRun
import Geryon.Ratchet.Hybrid
import Geryon.Ratchet.Limits

/-!
# KEM synchronisation of the hybrid Double Ratchet

Where the ML-KEM keys and ciphertexts sit on the key schedule. A level carries the KEM pair its
owner holds while on it, the ciphertext its headers carry and whether they carry the pair's
encapsulation key. The owner of a level encapsulates to the pair of the level below, whose
decapsulation key the receiver still holds when the header reaches it.
-/

namespace Geryon

variable {β : Type} [Octet β] [Sodium β] {desc : SuiteDesc β}

/-- What the hybrid engine adds to a level: the KEM pair, the ciphertext of the level's headers, the
confirmation ciphertext and whether the headers announce the encapsulation key. -/
structure KemLevel (β : Type) where
  ek : Bytes β
  dk : Bytes β
  ct : Bytes β
  confirmCt : Bytes β
  fresh : Bool

/-- The level whose headers carry the confirmation: the responder's first sending chain. -/
def confirmLevel : Nat := 2

variable (I : IdealSuite desc) (idEk idDk : Bytes β)

/-- The confirmation secret that the receiver of a level mixes in: from level two only, decapsulated
with the initiator's identity key. -/
def ConfirmAt (desc : SuiteDesc β) (idDk : Bytes β) (ℓ : Nat) (ct : Bytes β)
    (cs : Option (Bytes β)) : Prop :=
  if ℓ = confirmLevel then ∃ c, desc.kemDecap ct idDk = .ok c ∧ cs = some c else cs = none

/-- Level `ℓ + 1` on top of level `ℓ`. -/
structure HybridLink (lv : Nat → Level β (KemLevel β)) (ℓ : Nat) : Prop where
  kem : I.genuineKem (lv (ℓ + 1)).x.ek (lv (ℓ + 1)).x.dk
  /-- A level that does not announce its encapsulation key has the one its owner announced last. -/
  kept : (lv (ℓ + 1)).x.fresh = false → 1 ≤ ℓ ∧ (lv (ℓ + 1)).x.ek = (lv (ℓ - 1)).x.ek
  /-- The ciphertext was encapsulated to the pair of level `ℓ`, and both ends derive the level. -/
  derive : ∃ coins ss dh cs hdh,
    desc.kemEncap (lv ℓ).x.ek coins = .ok ((lv (ℓ + 1)).x.ct, ss) ∧
    desc.kemDecap (lv (ℓ + 1)).x.ct (lv ℓ).x.dk = .ok ss ∧
    desc.dh (lv ℓ).kp.sk (lv (ℓ + 1)).kp.pk = .ok dh ∧
    ConfirmAt desc idDk (ℓ + 1) (lv (ℓ + 1)).x.confirmCt cs ∧
    hybridMix desc cs ss dh = .ok hdh ∧
    gyDrcKdfRk desc (lv ℓ).rk hdh = .ok ⟨(lv (ℓ + 1)).rk, (lv (ℓ + 1)).ck, (lv (ℓ + 1)).nhk⟩

/-- The hybrid part of a session at level `ℓ`. -/
structure HybridAt (lv : Nat → Level β (KemLevel β)) (ℓ : Nat) (st : HybridState β) : Prop where
  mlkemEk : st.mlkemEk = (lv ℓ).x.ek
  mlkemDk : st.mlkemDk = (lv ℓ).x.dk
  kem : I.genuineKem (lv ℓ).x.ek (lv ℓ).x.dk
  remoteEk : 1 ≤ ℓ → st.haveRemoteEk = true ∧ st.remoteEk = (lv (ℓ - 1)).x.ek
  kemCt : 1 ≤ ℓ → st.haveKemCt = true ∧ st.kemCt = (lv ℓ).x.ct ∧ st.kemCt.length = desc.kemCtLen
  sendEkPending : 1 ≤ ℓ → st.sendEkPending = (lv ℓ).x.fresh
  role : st.role = if ℓ % 2 = 0 then .responder else .initiator
  confirmPending : st.confirmPending = decide (ℓ = 0)
  idMlkemEk : ℓ = 0 → st.idMlkemEk = idEk
  idMlkemDk : ℓ = 1 → st.idMlkemDk = idDk
  pqState : ℓ % 2 = 1 → (st.pqState = .classicalOnly ↔ ℓ = 1)
  sendConfirmPending : st.sendConfirmPending = decide (ℓ = confirmLevel)
  confirmCt : ℓ = confirmLevel → st.confirmCt = (lv ℓ).x.confirmCt ∧
    st.confirmCt.length = desc.kemCtLen

/-- A header of level `k`. -/
structure HybridHdr (desc : SuiteDesc β) (lv : Nat → Level β (KemLevel β)) (k : Nat)
    (h : DrHybridHeader β) : Prop where
  flags : h.flags = headerFlags desc (lv k).x.fresh (decide (k = confirmLevel))
  kemCt : h.kemCt = (lv k).x.ct
  mlkemEk : h.mlkemEk = if (lv k).x.fresh then (lv k).x.ek else zeros desc.kemPkLen
  confirmCt : h.confirmCt = if k = confirmLevel then (lv k).x.confirmCt else zeros desc.kemCtLen
  length_kemCt : h.kemCt.length = desc.kemCtLen
  length_mlkemEk : h.mlkemEk.length = desc.kemPkLen
  length_confirmCt : h.confirmCt.length = desc.kemCtLen

/-- Good random input for a hybrid ratchet step. -/
def HybridRandOk (rnd : RatchetRand β) (kp : Keypair β) : Prop :=
  rnd.curve = .ok kp ∧ I.genuine kp ∧ ∃ ek dk, rnd.kem = .ok (ek, dk) ∧ I.genuineKem ek dk

/-! ## The halves of a ratchet step -/

/-- The classical part after a new epoch was started. -/
def DrState.epochStarted (b : DrState β) (rpk : Bytes β) : DrState β :=
  { b with pn := b.ns, ns := 0, nr := 0, dhr := rpk, haveDhr := true }

/-- The classical part after the receiving chain was derived. -/
def DrState.recvRooted (b : DrState β) (r : RootKeys β) : DrState β :=
  { b with
    hkr := b.nhkr, haveHkr := true
    rk := r.rk, ckr := r.ck, nhkr := r.nhk, haveCkr := true, haveNhkr := true }

/-- The classical part after the sending chain was derived. -/
def DrState.sendRooted (b : DrState β) (r : RootKeys β) : DrState β :=
  { b with
    hks := b.nhks, haveHks := true
    rk := r.rk, cks := r.ck, nhks := r.nhk, haveCks := true, haveNhks := true }

/-- The root keys of a level. -/
def Level.rootKeys {γ : Type} (l : Level β γ) : RootKeys β := ⟨l.rk, l.ck, l.nhk⟩

/-- A session after the receiving half of a ratchet step to level `mid`. -/
def HybridState.received (st : HybridState β) (mid : Level β (KemLevel β)) : HybridState β :=
  { st with
    remoteEk := mid.x.ek, haveRemoteEk := true
    base := (st.base.epochStarted mid.kp.pk).recvRooted mid.rootKeys }

/-- A session after the key refresh. -/
def HybridState.refreshed (st : HybridState β) (kp : Keypair β) (ek dk : Bytes β) (c : UInt32) :
    HybridState β :=
  { st with mlkemEk := ek, mlkemDk := dk, mlkemCounter := c, base := { st.base with dhs := kp } }

/-- A session after the sending half of a ratchet step. -/
def HybridState.sendDerived (st : HybridState β) (ct cct : Bytes β) (r : RootKeys β) :
    HybridState β :=
  { st with
    kemCt := ct, haveKemCt := true
    confirmCt := if st.confirmPending then cct else st.confirmCt
    haveConfirmCt := if st.confirmPending then true else st.haveConfirmCt
    base := st.base.sendRooted r }

/-- A session after the confirmation state was updated. -/
def HybridState.settled (st : HybridState β) (regen sendConfirm recvConfirm wasConfirmSent : Bool) :
    HybridState β :=
  { st with
    sendEkPending := regen
    sendConfirmPending := sendConfirm
    confirmPending := if sendConfirm then false else st.confirmPending
    pqState := if st.role = .responder ∧ wasConfirmSent = true then .confirmed
      else if recvConfirm then .confirmed else if sendConfirm then .confirmSent else st.pqState
    idMlkemDk := if recvConfirm then zeros 3168 else st.idMlkemDk
    haveIdDk := if recvConfirm then false else st.haveIdDk }

section Step

variable {I idEk idDk} {lv : Nat → Level β (KemLevel β)} {ℓ : Nat} {st : HybridState β}
  {h : DrHybridHeader β} {rnd : RatchetRand β} {kp : Keypair β}

/-- The initiator requires the confirmation on its first receiving chain; nobody else gets one. -/
theorem recvConfirm_at (hx : HybridAt I idEk idDk lv ℓ st)
    (hh : HybridHdr desc lv (ℓ + 1) h) : recvConfirm st h = .ok (decide (ℓ = 1)) := by
  have hconf : confirmPresent h.flags = decide (ℓ = 1) := by
    rw [hh.flags, confirmPresent_headerFlags]
    simp [confirmLevel]
  rcases Nat.mod_two_eq_zero_or_one ℓ with hpar | hpar
  · have hne : ℓ ≠ 1 := by omega
    simp [recvConfirm, hx.role, hpar, hconf, hne]
  · have hpq := hx.pqState hpar
    by_cases h1 : ℓ = 1
    · simp [recvConfirm, hx.role, hconf, hpq, h1]
    · simp [recvConfirm, hx.role, hpar, hconf, hpq, h1]

/-- After step 2 the cached remote key is that of the header's level. -/
theorem cacheRemoteEk_at (st : HybridState β) (hh : HybridHdr desc lv (ℓ + 1) h)
    (hlink : HybridLink I idDk lv ℓ)
    (hremote : 1 ≤ ℓ → st.haveRemoteEk = true ∧ st.remoteEk = (lv (ℓ - 1)).x.ek) :
    cacheRemoteEk h st =
      (.ok (), { st with remoteEk := (lv (ℓ + 1)).x.ek, haveRemoteEk := true }) := by
  have hek : ekPresent h.flags = (lv (ℓ + 1)).x.fresh := by
    rw [hh.flags, ekPresent_headerFlags]
  have hval := hh.mlkemEk
  rcases hfresh : (lv (ℓ + 1)).x.fresh with _ | _
  · -- the key was announced on an earlier chain and is cached
    obtain ⟨h1, hkept⟩ := hlink.kept hfresh
    obtain ⟨hhave, hrem⟩ := hremote h1
    have hsame : { st with remoteEk := st.remoteEk, haveRemoteEk := true } = st := by rw [← hhave]
    rw [hkept, ← hrem, hsame]
    simp [cacheRemoteEk, hek, hfresh, hhave]
  · simp only [hfresh, if_true] at hval
    simp [cacheRemoteEk, hek, hfresh, hval]

omit [Sodium β] in
/-- Step 3 when every derivation goes through. -/
theorem hybridRecvStep_apply {confirm : Bool} {cs : Option (Bytes β)} {ss dh ikm : Bytes β}
    {r : RootKeys β} (hss : desc.kemDecap h.kemCt st.mlkemDk = .ok ss)
    (hdh : desc.dh st.base.dhs.sk st.base.dhr = .ok dh)
    (hcs : if confirm = true then ∃ c, desc.kemDecap h.confirmCt st.idMlkemDk = .ok c ∧ cs = some c
      else cs = none)
    (hmix : hybridMix desc cs ss dh = .ok ikm) (hr : gyDrcKdfRk desc st.base.rk ikm = .ok r) :
    hybridRecvStep desc confirm h st = (.ok (), { st with base := st.base.recvRooted r }) := by
  cases confirm with
  | false =>
    obtain rfl : cs = none := by simpa using hcs
    simp [hybridRecvStep, onBase, rotateHkr, hss, ratchetDh, hdh, hmix, recvRoot, hr,
      Cmd.bind_apply,
      DrState.recvRooted]
  | true =>
    obtain ⟨c, hc, rfl⟩ : ∃ c, desc.kemDecap h.confirmCt st.idMlkemDk = .ok c ∧ cs = some c := by
      simpa using hcs
    simp [hybridRecvStep, onBase, rotateHkr, hss, ratchetDh, hdh, hc, hmix, recvRoot, hr,
      Cmd.bind_apply, DrState.recvRooted]

omit [Octet β] in
/-- Step 4: a fresh curve pair, and either a fresh KEM pair or the one there was. -/
theorem hybridRefresh_at (hrnd : HybridRandOk I rnd kp)
    (hkem : I.genuineKem st.mlkemEk st.mlkemDk) :
    ∃ regen ek dk c, hybridRefresh rnd st = (.ok regen, st.refreshed kp ek dk c) ∧
      I.genuineKem ek dk ∧ (regen = false → ek = st.mlkemEk) := by
  obtain ⟨hcurve, -, ek, dk, hpair, hgen⟩ := hrnd
  by_cases hdue : st.mlkemCounter + 1 ≥ st.mlkemInterval
  · refine ⟨true, ek, dk, 0, ?_, hgen, by simp⟩
    simp [hybridRefresh, hdue, hpair, hcurve, HybridState.refreshed]
  · refine ⟨false, st.mlkemEk, st.mlkemDk, st.mlkemCounter + 1, ?_, hkem, fun _ => rfl⟩
    simp [hybridRefresh, hdue, hcurve, HybridState.refreshed]

omit [Sodium β] in
/-- Step 5 when every derivation goes through. -/
theorem hybridSendStep_apply {cs : Option (Bytes β)} {ct cct ss dh ikm : Bytes β} {r : RootKeys β}
    (hct : desc.kemEncap st.remoteEk rnd.coins = .ok (ct, ss))
    (hcs : if st.confirmPending = true then
        ∃ c, desc.kemEncap st.idMlkemEk rnd.confirmCoins = .ok (cct, c) ∧ cs = some c
      else cs = none)
    (hdh : desc.dh st.base.dhs.sk st.base.dhr = .ok dh)
    (hmix : hybridMix desc cs ss dh = .ok ikm) (hr : gyDrcKdfRk desc st.base.rk ikm = .ok r) :
    hybridSendStep desc rnd st = (.ok st.confirmPending, st.sendDerived ct cct r) := by
  rcases hpend : st.confirmPending with _ | _
  · obtain rfl : cs = none := by simpa [hpend] using hcs
    simp [hybridSendStep, onBase, rotateHks, hct, hpend, ratchetDh, hdh, hmix, sendRoot, hr,
      Cmd.bind_apply, DrState.sendRooted, HybridState.sendDerived]
  · obtain ⟨c, hc, rfl⟩ : ∃ c, desc.kemEncap st.idMlkemEk rnd.confirmCoins = .ok (cct, c) ∧
        cs = some c := by
      simpa [hpend] using hcs
    simp [hybridSendStep, onBase, rotateHks, hct, hpend, hc, ratchetDh, hdh, hmix, sendRoot, hr,
      Cmd.bind_apply, DrState.sendRooted, HybridState.sendDerived]

omit [Sodium β] in
/-- What the bookkeeping after a step comes to. -/
theorem hybridTransition_apply (regen sendConfirm recvConfirm wasConfirmSent : Bool) :
    hybridTransition regen sendConfirm recvConfirm wasConfirmSent st =
      (.ok (), st.settled regen sendConfirm recvConfirm wasConfirmSent) := by
  rcases hrole : st.role with _ | _ <;> cases sendConfirm <;> cases recvConfirm <;>
    cases wasConfirmSent <;> simp [hybridTransition, HybridState.settled, hrole]

/-- The receiving half of a ratchet step. -/
theorem hybridRecv_at {id : UInt8} {sec : DrSecrets β} (hb : BaseAt desc id sec lv ℓ st.base)
    (hx : HybridAt I idEk idDk lv ℓ st) (hlink : HybridLink I idDk lv ℓ)
    (hh : HybridHdr desc lv (ℓ + 1) h) (hpk : h.ratchetPk = (lv (ℓ + 1)).kp.pk) :
    ∃ s₀ s₁, onBase (startEpoch h.ratchetPk) st = (.ok (), s₀) ∧ cacheRemoteEk h s₀ = (.ok (), s₁) ∧
      hybridRecvStep desc (decide (ℓ = 1)) h s₁ = (.ok (), st.received (lv (ℓ + 1))) := by
  obtain ⟨coins, ss, dh, cs, ikm, -, hss, hdh, hcs, hmix, hr⟩ := hlink.derive
  have hcache := cacheRemoteEk_at { st with base := st.base.epochStarted (lv (ℓ + 1)).kp.pk } hh
    hlink hx.remoteEk
  refine ⟨_, _, by rw [hpk]; rfl, hcache, ?_⟩
  refine hybridRecvStep_apply (r := (lv (ℓ + 1)).rootKeys) ?_ ?_ ?_ hmix ?_
  -- the KEM secret, the curve secret and the root key are those of the level's derivation
  · rw [hh.kemCt]
    show desc.kemDecap _ st.mlkemDk = _
    rw [hx.mlkemDk]
    exact hss
  · show desc.dh st.base.dhs.sk (lv (ℓ + 1)).kp.pk = _
    rw [hb.dhs]
    exact hdh
  · show if decide (ℓ = 1) = true then
      ∃ c, desc.kemDecap h.confirmCt st.idMlkemDk = .ok c ∧ cs = some c else cs = none
    -- only the responder's first ratchet step decapsulates the confirmation
    by_cases h1 : ℓ = 1
    · subst h1
      have hc : h.confirmCt = (lv 2).x.confirmCt := hh.confirmCt
      rw [if_pos (by simp), hc, hx.idMlkemDk rfl]
      exact hcs
    · rw [if_neg (by simpa using h1)]
      rwa [ConfirmAt, if_neg (by simpa [confirmLevel] using h1)] at hcs
  · show gyDrcKdfRk desc st.base.rk ikm = _
    rw [hb.rk]
    exact hr

/-- A hybrid ratchet step moves a session up two levels. -/
theorem hybridDhRatchet_spec {id : UInt8} {sec : DrSecrets β} (hid : I.genuineKem idEk idDk)
    (hb : BaseAt desc id sec lv ℓ st.base) (hx : HybridAt I idEk idDk lv ℓ st)
    (hlink : HybridLink I idDk lv ℓ) (hh : HybridHdr desc lv (ℓ + 1) h)
    (hpk : h.ratchetPk = (lv (ℓ + 1)).kp.pk) (hg : I.genuine (lv (ℓ + 1)).kp)
    (hrnd : HybridRandOk I rnd kp) :
    ∃ st' new, hybridDhRatchet desc rnd h st = (.ok (), st') ∧ new.kp = kp ∧
      st'.base = ratcheted st.base (lv (ℓ + 1)) new ∧
      HybridLink I idDk (Function.update lv (ℓ + 2) new) (ℓ + 1) ∧
      HybridAt I idEk idDk (Function.update lv (ℓ + 2) new) (ℓ + 2) st' := by
  obtain ⟨s₀, s₁, hstart, hcache, hrecv⟩ := hybridRecv_at hb hx hlink hh hpk
  have hkem : I.genuineKem (st.received (lv (ℓ + 1))).mlkemEk
      (st.received (lv (ℓ + 1))).mlkemDk := by
    show I.genuineKem st.mlkemEk st.mlkemDk
    rw [hx.mlkemEk, hx.mlkemDk]
    exact hx.kem
  obtain ⟨regen, ek, dk, c, hrefresh, hgen, hkept⟩ := hybridRefresh_at hrnd hkem
  -- the sending half: fresh encapsulations to the pair of the header's level and, on the
  -- responder's first chain, to the initiator's identity key
  obtain ⟨ct, ss, hct, hctlen, hdec⟩ := I.kem_correct hlink.kem rnd.coins
  obtain ⟨cct, cs, hcct, hcctlen, hcdec⟩ := I.kem_correct hid rnd.confirmCoins
  obtain ⟨dh, hdh₁, hdh₂⟩ := I.dh_comm hg hrnd.2.1
  obtain ⟨ikm, hmix⟩ : ∃ ikm, hybridMix desc (if ℓ = 0 then some cs else none) ss dh = .ok ikm := by
    split_ifs
    · exact I.hash_ok _
    · exact I.hash_ok _
  obtain ⟨r, hr⟩ := I.gyDrcKdfRk_ok (lv (ℓ + 1)).rk ikm
  have hpend := hx.confirmPending
  have hcs : if ((st.received (lv (ℓ + 1))).refreshed kp ek dk c).confirmPending = true then
        ∃ x, desc.kemEncap ((st.received (lv (ℓ + 1))).refreshed kp ek dk c).idMlkemEk
          rnd.confirmCoins = .ok (cct, x) ∧ (if ℓ = 0 then some cs else none) = some x
      else (if ℓ = 0 then some cs else none) = none := by
    show if st.confirmPending = true then ∃ x, desc.kemEncap st.idMlkemEk rnd.confirmCoins =
      .ok (cct, x) ∧ (if ℓ = 0 then some cs else none) = some x else _
    rw [hpend]
    by_cases h0 : ℓ = 0
    · rw [if_pos (by simpa using h0), hx.idMlkemEk h0]
      exact ⟨cs, hcct, by rw [if_pos h0]⟩
    · rw [if_neg (by simpa using h0), if_neg h0]
  have hsend := hybridSendStep_apply hct hcs hdh₂ hmix hr
  have hstep : hybridDhRatchet desc rnd h st = (.ok (),
      (((st.received (lv (ℓ + 1))).refreshed kp ek dk c).sendDerived ct cct r).settled regen
        st.confirmPending (decide (ℓ = 1)) (decide (st.pqState = .confirmSent))) := by
    rw [hybridDhRatchet, Cmd.get_bind_apply, recvConfirm_at hx hh, Cmd.lift_ok_bind_apply,
      Cmd.bind_apply_of_ok hstart, Cmd.bind_apply_of_ok hcache, Cmd.bind_apply_of_ok hrecv,
      Cmd.bind_apply_of_ok hrefresh, Cmd.bind_apply_of_ok hsend, hybridTransition_apply]
    rfl
  refine ⟨_, ⟨kp, r.rk, r.ck, r.nhk, ⟨ek, dk, ct, cct, regen⟩⟩, hstep, rfl, rfl, ?_, ?_⟩
  · refine ⟨?_, ?_, rnd.coins, ss, dh, if ℓ = 0 then some cs else none, ikm, ?_⟩
    · simpa using hgen
    · intro hfresh
      have hregen : regen = false := by simpa using hfresh
      refine ⟨by omega, ?_⟩
      have hek : ek = (lv ℓ).x.ek := (hkept hregen).trans hx.mlkemEk
      simpa using hek
    · have hconf : ConfirmAt desc idDk (ℓ + 2) cct (if ℓ = 0 then some cs else none) := by
        by_cases h0 : ℓ = 0
        · simp [ConfirmAt, confirmLevel, h0, hcdec]
        · simp [ConfirmAt, confirmLevel, h0]
      simpa using ⟨hct, hdec, hdh₁, hconf, hmix, hr⟩
  · have htwo : Function.update lv (ℓ + 2) ⟨kp, r.rk, r.ck, r.nhk, ⟨ek, dk, ct, cct, regen⟩⟩
        (ℓ + 2) = ⟨kp, r.rk, r.ck, r.nhk, ⟨ek, dk, ct, cct, regen⟩⟩ := Function.update_self ..
    have hone : Function.update lv (ℓ + 2) ⟨kp, r.rk, r.ck, r.nhk, ⟨ek, dk, ct, cct, regen⟩⟩
        (ℓ + 2 - 1) = lv (ℓ + 1) := Function.update_of_ne (by omega) _ _
    refine { mlkemEk := ?_, mlkemDk := ?_, kem := ?_, remoteEk := fun _ => ?_, kemCt := fun _ => ?_,
             sendEkPending := fun _ => ?_, role := ?_, confirmPending := ?_,
             idMlkemEk := fun h0 => absurd h0 (by omega),
             idMlkemDk := fun h1 => absurd h1 (by omega),
             pqState := ?_, sendConfirmPending := ?_, confirmCt := ?_ }
    · rw [htwo]
      rfl
    · rw [htwo]
      rfl
    · rw [htwo]
      exact hgen
    · rw [hone]
      exact ⟨rfl, rfl⟩
    · rw [htwo]
      exact ⟨rfl, rfl, hctlen⟩
    · rw [htwo]
      rfl
    · rw [Nat.add_mod_right]
      exact hx.role
    · show (if st.confirmPending = true then false else st.confirmPending) = decide (ℓ + 2 = 0)
      simp
    · intro hodd
      have hodd : ℓ % 2 = 1 := by omega
      have hrole : st.role = .initiator := by rw [hx.role, if_neg (by omega)]
      have hpend0 : st.confirmPending = false := by
        rw [hpend]
        simp
        omega
      have hpq := hx.pqState hodd
      refine iff_of_false ?_ (by omega)
      show ¬ (if st.role = .responder ∧ decide (st.pqState = .confirmSent) = true then
          PqState.confirmed else if decide (ℓ = 1) = true then .confirmed
          else if st.confirmPending = true then .confirmSent else st.pqState) = .classicalOnly
      by_cases h1 : ℓ = 1
      · simp [hrole, h1]
      · simp [hrole, h1, hpend0, hpq]
    · show st.confirmPending = decide (ℓ + 2 = confirmLevel)
      rw [hpend]
      simp [confirmLevel]
    · intro h2
      have h0 : ℓ = 0 := by simpa [confirmLevel] using h2
      have hcc : (if st.confirmPending = true then cct else st.confirmCt) = cct := by
        rw [hpend]
        simp [h0]
      rw [htwo]
      refine ⟨hcc, ?_⟩
      show (if st.confirmPending = true then cct else st.confirmCt).length = _
      rw [hcc]
      exact hcctlen

end Step

/-! ## The engine on the key schedule -/

section Spec

variable {I idEk idDk} {lv lv' : Nat → Level β (KemLevel β)} {ℓ : Nat}

omit [Octet β] in
/-- A state stands at a level by that level's key pairs alone. -/
theorem HybridAt.congr {st : HybridState β} (h : SamePairs lv lv' ℓ)
    (hx : HybridAt I idEk idDk lv ℓ st) : HybridAt I idEk idDk lv' ℓ st := by
  have h0 := (h ℓ le_rfl).2
  have h1 := (h (ℓ - 1) (by omega)).2
  exact { hx with
    mlkemEk := h0 ▸ hx.mlkemEk, mlkemDk := h0 ▸ hx.mlkemDk, kem := h0 ▸ hx.kem
    remoteEk := h1 ▸ hx.remoteEk, kemCt := h0 ▸ hx.kemCt, sendEkPending := h0 ▸ hx.sendEkPending
    confirmCt := h0 ▸ hx.confirmCt }

omit [Sodium β] in
/-- So does a header. -/
theorem HybridHdr.congr {h : DrHybridHeader β} (hsame : SamePairs lv lv' ℓ)
    (hh : HybridHdr desc lv ℓ h) : HybridHdr desc lv' ℓ h := by
  have h0 := (hsame ℓ le_rfl).2
  exact { hh with
    flags := h0 ▸ hh.flags, kemCt := h0 ▸ hh.kemCt, mlkemEk := h0 ▸ hh.mlkemEk
    confirmCt := h0 ▸ hh.confirmCt }

/-- And so does the link of two levels. -/
theorem HybridLink.congr (h : ∀ i ≤ ℓ + 1, lv i = lv' i) (hl : HybridLink I idDk lv ℓ) :
    HybridLink I idDk lv' ℓ where
  kem := by rw [← h (ℓ + 1) le_rfl]; exact hl.kem
  kept := by rw [← h (ℓ + 1) le_rfl, ← h (ℓ - 1) (by omega)]; exact hl.kept
  derive := by rw [← h (ℓ + 1) le_rfl, ← h ℓ (by omega)]; exact hl.derive

/-- The header a session at a level builds. -/
theorem hybridHeader_at {st : HybridState β} (h1 : 1 ≤ ℓ) (hx : HybridAt I idEk idDk lv ℓ st) :
    HybridHdr desc lv ℓ (hybridHeader desc st) := by
  obtain ⟨-, hct, hctlen⟩ := hx.kemCt h1
  have hpend := hx.sendEkPending h1
  have hconf := hx.sendConfirmPending
  have hek : (hybridHeader desc st).mlkemEk =
      if (lv ℓ).x.fresh then (lv ℓ).x.ek else zeros desc.kemPkLen := by
    simp only [hybridHeader, hpend, hx.mlkemEk]
  have hcc : (hybridHeader desc st).confirmCt =
      if ℓ = confirmLevel then (lv ℓ).x.confirmCt else zeros desc.kemCtLen := by
    by_cases h2 : ℓ = confirmLevel
    · simp only [hybridHeader, hconf, h2, decide_true, if_true]
      rw [(hx.confirmCt h2).1, h2]
    · simp [hybridHeader, hconf, h2]
  refine ⟨?_, hct, hek, hcc, hctlen, ?_, ?_⟩
  · simp only [hybridHeader, hybridFlags, hpend, hconf]
  · rw [hek]
    split_ifs
    · exact I.genuineKem_ek hx.kem
    · exact length_zeros _
  · rw [hcc]
    split_ifs with h2
    · rw [← (hx.confirmCt h2).1]
      exact (hx.confirmCt h2).2
    · exact length_zeros _

omit [Sodium β] in
/-- A header of a level is filled as its flag word says. -/
theorem HybridHdr.filled {h : DrHybridHeader β} (hh : HybridHdr desc lv ℓ h)
    (hpk : h.ratchetPk.length = desc.curvePkLen) :
    h.Filled desc (lv ℓ).x.fresh (decide (ℓ = confirmLevel)) where
  flags := hh.flags
  ratchetPk := hpk
  kemCt := hh.length_kemCt
  mlkemEk := hh.length_mlkemEk
  confirmCt := hh.length_confirmCt
  mlkemEk_absent := fun hf => by rw [hh.mlkemEk, hf]; rfl
  confirmCt_absent := fun hf => by rw [hh.confirmCt, if_neg (by simpa using hf)]

/-- A header of a level encodes, and decodes to itself. -/
theorem hybrid_encode_ok (I : IdealSuite desc) (hhyb : desc.isHybrid = true) {h : DrHybridHeader β}
    (hh : HybridHdr desc lv ℓ h) (hpk : h.ratchetPk.length = desc.curvePkLen) :
    ∃ b, gyDrHybridHeaderEncode desc h drHybridHeaderMax = .ok b ∧ b.length ≤ drHybridHeaderMax ∧
      (∀ tag, encHeaderLenOk desc (b.length + tag) tag = true) ∧ b.length < 60000 ∧
      hybridDecode desc b = .ok h := by
  have hf := hh.filled hpk
  have hmax : drHybridHeaderMax = 4 + curvePkMax + kemCtMax + 4 + 4 + kemEkMax + kemCtMax := rfl
  have h56 : curvePkMax = 56 := rfl
  have hct : kemCtMax ≤ 2000 := by decide
  have hek : kemEkMax ≤ 2000 := by decide
  have h1 := I.curvePkLen_le
  have h2 := I.kemCtLen_le
  have h3 := I.kemPkLen_le
  have hlenle : ∀ ek confirm, gyDrHybridHeaderLen desc ek confirm ≤ drHybridHeaderMax := by
    intro ek confirm
    rw [gyDrHybridHeaderLen, if_pos hhyb]
    cases ek <;> cases confirm <;> simp only [Bool.false_eq_true, if_true, if_false] <;> omega
  obtain ⟨b, hb⟩ : ∃ b, gyDrHybridHeaderEncode desc h drHybridHeaderMax = .ok b := by
    have hle := hlenle (lv ℓ).x.fresh (decide (ℓ = confirmLevel))
    rw [gyDrHybridHeaderLen, if_pos hhyb] at hle
    rw [gyDrHybridHeaderEncode, hf.flags, ekPresent_headerFlags, confirmPresent_headerFlags,
      if_neg (Nat.not_lt.mpr hle)]
    exact ⟨_, rfl⟩
  have hlen := length_gyDrHybridHeaderEncode desc hhyb hf hb
  have hle := hlenle (lv ℓ).x.fresh (decide (ℓ = confirmLevel))
  refine ⟨b, hb, by omega, ?_, by omega, ?_⟩
  · intro tag
    rw [hlen, encHeaderLenOk]
    rcases (lv ℓ).x.fresh <;> rcases decide (ℓ = confirmLevel) <;> simp
  · simp only [hybridDecode, gyDrHybridHeaderDecode_encode desc hhyb hf hb, bind, Except.bind]
    simp

/-- The hybrid engine on the key schedule. -/
def hybridSpec (I : IdealSuite desc) (hhyb : desc.isHybrid = true) (hid : I.genuineKem idEk idDk) :
    EngineSpec (hybrid desc) I (KemLevel β) where
  RandOk := HybridRandOk I
  Ext := HybridAt I idEk idDk
  Hdr := HybridHdr desc
  Link := HybridLink I idDk
  randOk_curve h := ⟨h.1, h.2.1⟩
  ext_congr h hx := hx.congr h
  hdr_congr h hh := hh.congr h
  link_congr h hl := hl.congr h
  link_kdf hl := by
    obtain ⟨_, _, _, _, ikm, _, _, _, _, _, hr⟩ := hl.derive
    exact ⟨ikm, hr⟩
  ext_withBase _ hx := { hx with }
  canSend h1 hx := (hx.kemCt h1).1
  hdr_header h1 hx _ := hybridHeader_at h1 hx
  header_pk _ := rfl
  header_pn _ := rfl
  header_n _ := rfl
  encode_ok hh hpk := hybrid_encode_ok I hhyb hh hpk
  headerCheck := by
    intro lv ℓ k s h hx hh hk1 hpar
    have hconf : confirmPresent h.flags = decide (k = confirmLevel) := by
      rw [hh.flags, confirmPresent_headerFlags]
    -- only level two carries the confirmation, and its receiver is the initiator
    have hno : ¬ (confirmPresent h.flags = true ∧ s.role = .responder) := by
      rintro ⟨hc, hr⟩
      have hk : k = 2 := of_decide_eq_true (hconf ▸ hc)
      rw [hx.role, if_neg (by omega)] at hr
      cases hr
    exact if_neg hno
  ratchet := by
    intro id sec lv ℓ s h rnd kp hb hx hlink hh hpk hg hrnd
    exact hybridDhRatchet_spec hid hb hx hlink hh hpk hg hrnd

/-- The initiator's set-up succeeds on genuine keys. -/
theorem gyHybridDrInitAlice_ok (hhyb : desc.isHybrid = true) (id : UInt8) (sec : DrSecrets β)
    {spk : HybridKeypair β} (hspk : I.genuine spk.curve)
    (hspkKem : I.genuineKem spk.mlkemEk spk.mlkemDk) {ia : UInt32} (hia : ¬ ia < 1) (idDk : Bytes β)
    {rnd : RatchetRand β} {kp : Keypair β} (hrnd : HybridRandOk I rnd kp) :
    ∃ a, gyHybridDrInitAlice desc id sec spk.curve.pk spk.mlkemEk ia idDk rnd = .ok a := by
  obtain ⟨hcurve, hkp, ek, dk, hkem, -⟩ := hrnd
  obtain ⟨dh, -, hdh⟩ := I.dh_comm hspk hkp
  obtain ⟨ct, ss, hct, -⟩ := I.kem_correct hspkKem rnd.coins
  obtain ⟨ikm, hmix⟩ : ∃ ikm, hybridCombine desc ss dh = .ok ikm := I.hash_ok _
  obtain ⟨r, hr⟩ := I.gyDrcKdfRk_ok sec.skDr ikm
  simp only [gyHybridDrInitAlice, hhyb, hia, hcurve, hkem, hct, hdh, hmix, hr, bind, Except.bind,
    pure, Except.pure, Bool.not_true, decide_false, Bool.or_self, Bool.false_eq_true, if_false]
  exact ⟨_, rfl⟩

/-- Two parties that have just been set up from the same secrets are in step. -/
theorem sync_start_hybrid [DecidableEq β] (hhyb : desc.isHybrid = true)
    (hidk : I.genuineKem idEk idDk) {id : UInt8} {sec : DrSecrets β} {spk : HybridKeypair β}
    {rnd : RatchetRand β} {kp : Keypair β} {ia ib : UInt32} {a b : HybridState β} {ad : Bytes β}
    (hspk : I.genuine spk.curve) (hspkKem : I.genuineKem spk.mlkemEk spk.mlkemDk)
    (hrnd : HybridRandOk I rnd kp) (hne : spk.curve.pk ≠ kp.pk)
    (ha : gyHybridDrInitAlice desc id sec spk.curve.pk spk.mlkemEk ia idDk rnd = .ok a)
    (hb : gyHybridDrInitBob desc id sec spk ib idEk = .ok b) :
    ∃ lv, Sync (hybridSpec I hhyb hidk) id ad sec (World.start a b) [spk.curve.pk, kp.pk] lv
      Party.par fun _ _ => 0 := by
  obtain ⟨hcurve, hkp, ek, dk, hkem, hgen⟩ := hrnd
  obtain ⟨dh, hdh₁, hdh₂⟩ := I.dh_comm hspk hkp
  obtain ⟨ct, ss, hct, hctlen, hdec⟩ := I.kem_correct hspkKem rnd.coins
  obtain ⟨ikm, hmix⟩ : ∃ ikm, hybridCombine desc ss dh = .ok ikm := I.hash_ok _
  obtain ⟨r, hr⟩ := I.gyDrcKdfRk_ok sec.skDr ikm
  by_cases hia : ia < 1
  · simp [gyHybridDrInitAlice, hia] at ha
  by_cases hib : ib < 1
  · simp [gyHybridDrInitBob, hib] at hb
  simp only [gyHybridDrInitAlice, hhyb, hia, hcurve, hkem, hct, hdh₂, hmix, hr, bind, Except.bind,
    pure, Except.pure, Bool.not_true, decide_false, Bool.or_self, Bool.false_eq_true,
    if_false] at ha
  simp only [gyHybridDrInitBob, hhyb, hib, Bool.not_true, decide_false, Bool.or_self,
    Bool.false_eq_true, if_false] at hb
  obtain rfl := Except.ok.inj ha
  obtain rfl := Except.ok.inj hb
  let lv : Nat → Level β (KemLevel β) := fun ℓ =>
    ℓ.casesOn ⟨spk.curve, sec.skDr, [], [], ⟨spk.mlkemEk, spk.mlkemDk, [], [], false⟩⟩
      fun _ => ⟨kp, r.rk, r.ck, r.nhk, ⟨ek, dk, ct, [], true⟩⟩
  refine ⟨lv, Sync.start lv rfl
    ⟨hgen, fun h => (by cases h), rnd.coins, ss, dh, none, ikm, hct, hdec,
    hdh₁, rfl, hmix, hr⟩ ?_ hne ?_ ?_ ?_ ?_ ⟨rfl, rfl, rfl⟩ ⟨rfl, rfl, rfl⟩⟩
  · intro ℓ hℓ
    obtain rfl | rfl : ℓ = 0 ∨ ℓ = 1 := by omega
    · exact hspk
    · exact hkp
  · exact ⟨rfl, rfl, rfl, rfl, rfl, rfl, rfl, rfl, rfl, rfl, rfl, fun _ => rfl, fun _ => rfl,
      fun _ => rfl, fun h => absurd h (by decide), fun h => absurd h (by decide),
      SkipStore.inv_empty⟩
  · exact ⟨rfl, rfl, rfl, rfl, rfl, rfl, rfl, rfl, rfl, rfl, rfl, fun h => absurd h (by decide),
      fun h => absurd h (by decide), fun h => absurd h (by decide), fun h => absurd h (by decide),
      fun h => absurd h (by decide), SkipStore.inv_empty⟩
  · exact ⟨rfl, rfl, hgen, fun _ => ⟨rfl, rfl⟩, fun _ => ⟨rfl, rfl, hctlen⟩, fun _ => rfl, rfl, rfl,
      fun h => absurd h (by decide), fun _ => rfl, fun _ => iff_of_true rfl rfl, rfl,
      fun h => absurd h (by decide)⟩
  · exact ⟨rfl, rfl, hspkKem, fun h => absurd h (by decide), fun h => absurd h (by decide),
      fun h => absurd h (by decide), rfl, rfl, fun _ => rfl, fun h => absurd h (by decide),
      fun h => absurd h (by decide), rfl, fun h => absurd h (by decide)⟩

end Spec

/-! ## Runs -/

section Runs

variable {idEk idDk : Bytes β} [DecidableEq β]

/-- What happens when a frame reaches a receiver that has not opened its chain yet: the header's
KEM ciphertext was encapsulated to the receiver's current key, the header is not refused for a
missing key or ciphertext, the receiving half of the ratchet step gives the root key the sender
had, and the whole step succeeds. -/
structure RatchetsWith (I : IdealSuite desc) (h : DrHybridHeader β)
    (sender receiver : HybridState β) :
    Prop where
  encapsulated : ∃ coins ss, desc.kemEncap receiver.mlkemEk coins = .ok (h.kemCt, ss) ∧
    desc.kemDecap h.kemCt receiver.mlkemDk = .ok ss
  sameRoot : ∃ confirm s₀ s₁ s₂, recvConfirm receiver h = .ok confirm ∧
    onBase (startEpoch h.ratchetPk) receiver = (.ok (), s₀) ∧ cacheRemoteEk h s₀ = (.ok (), s₁) ∧
    hybridRecvStep desc confirm h s₁ = (.ok (), s₂) ∧ s₂.base.rk = sender.base.rk
  succeeds : ∀ rnd kp, HybridRandOk I rnd kp →
    ∃ receiver', hybridDhRatchet desc rnd h receiver = (.ok (), receiver')

/-- In step, a frame of a chain that the receiver has not opened meets the key it was made for. -/
theorem Sync.ratchetsWith {I : IdealSuite desc} {hhyb : desc.isHybrid = true}
    {hidk : I.genuineKem idEk idDk} {id : UInt8} {ad : Bytes β} {sec : DrSecrets β}
    {w : World β (HybridState β)} {keys : List (Bytes β)} {lv : Nat → Level β (KemLevel β)}
    {lvl : Party → Nat} {pos : Party → Nat → Nat}
    (hy : Sync (hybridSpec I hhyb hidk) id ad sec w keys lv lvl pos) {i : Nat}
    {f : Sent β (HybridState β)} (hi : w.sent[i]? = some f)
    (hnew : w.acceptedOn (hybrid desc) f.sender (f.chain (hybrid desc)) = []) :
    RatchetsWith I (hybridHeader desc f.from_) f.from_ (w.st f.sender.peer) := by
  obtain ⟨k, hp⟩ := hy.exists_pending hi
  have hs : f.sender = f.sender.peer.peer := hp.sender
  generalize f.sender.peer = p at hp hs ⊢
  obtain ⟨hkr, hpar⟩ := hy.pending_le hp
  have hk1 := hp.one_le
  -- every chain below the receiver's level has been opened, so this one is just above it
  have hk : k = lvl p + 1 := by
    by_contra hne
    rw [hs, FrameAt.chain hp.at_] at hnew
    exact hy.opened p k ⟨hk1, by omega, hpar⟩ hnew
  subst hk
  have hlink : HybridLink I idDk lv (lvl p) := hy.link p.peer (lvl p) hp.le
  have hx : HybridAt I idEk idDk lv (lvl p) (w.st p) := hy.ext p
  have hh : HybridHdr desc lv (lvl p + 1) (hybridHeader desc f.from_) :=
    hybridHeader_at hk1 hp.at_.ext
  have hpk : (hybridHeader desc f.from_).ratchetPk = (lv (lvl p + 1)).kp.pk := FrameAt.chain hp.at_
  refine ⟨?_, ?_, ?_⟩
  · obtain ⟨coins, ss, -, -, -, henc, hdec, -⟩ := hlink.derive
    refine ⟨coins, ss, ?_, ?_⟩
    · rw [hx.mlkemEk, hh.kemCt]
      exact henc
    · rw [hx.mlkemDk, hh.kemCt]
      exact hdec
  · obtain ⟨s₀, s₁, hstart, hcache, hrecv⟩ := hybridRecv_at (hy.base p) hx hlink hh hpk
    refine ⟨_, s₀, s₁, _, recvConfirm_at hx hh, hstart, hcache, hrecv, ?_⟩
    exact hp.at_.base.rk.symm
  · intro rnd kp hrnd
    obtain ⟨st', -, hstep, -⟩ := hybridDhRatchet_spec hidk (hy.base p) hx hlink hh hpk
      (hy.genuine p.peer _ hp.le) hrnd
    exact ⟨st', hstep⟩

/-- Two parties of the hybrid Double Ratchet, set up from the same secrets with any refresh
intervals, over any run of encryptions and deliveries with loss, reordering and duplication in which
no chain carries `2 ^ 32` messages: every frame that opens a new chain meets the KEM key it was
encapsulated to and gives the sender's root key, no frame is accepted twice, and every frame that
was not accepted yet, skips at most `maxSkip` messages and whose message key was not evicted
decrypts to its plaintext. -/
theorem hybrid_ratchet_synchronised (I : IdealSuite desc) (hhyb : desc.isHybrid = true) {id : UInt8}
    (hid : AeadUsable β id) {sk ad : Bytes β} (had : ad.length ≤ hybridAdMax) {sec : DrSecrets β}
    (hsec : expandSecrets desc sk = .ok sec) {spk : HybridKeypair β} (hspk : I.genuine spk.curve)
    (hspkKem : I.genuineKem spk.mlkemEk spk.mlkemDk) (hidk : I.genuineKem idEk idDk)
    {rnd₀ : RatchetRand β} {kp : Keypair β} (hrnd₀ : HybridRandOk I rnd₀ kp) {ia ib : UInt32}
    {a b : HybridState β}
    (ha : gyHybridDrInitAlice desc id sec spk.curve.pk spk.mlkemEk ia idDk rnd₀ = .ok a)
    (hb : gyHybridDrInitBob desc id sec spk ib idEk = .ok b) (es : List (Event β))
    (hfair : Fair (fun rnd => ∃ kp, HybridRandOk I rnd kp) [spk.curve.pk, kp.pk] es) :
    let w := (World.start a b).run (hybrid desc) desc ad es
    (∀ q pk, w.total (hybrid desc) q pk < 2 ^ 32) →
    w.accepted.Nodup ∧
    (∀ (i : Nat) (f : Sent β (HybridState β)), w.sent[i]? = some f →
      w.acceptedOn (hybrid desc) f.sender (f.chain (hybrid desc)) = [] →
      RatchetsWith I (hybridHeader desc f.from_) f.from_ (w.st f.sender.peer)) ∧
    ∀ (i : Nat) (f : Sent β (HybridState β)) rnd kp' cap, w.sent[i]? = some f →
      HybridRandOk I rnd kp' → i ∉ w.accepted →
      w.WithinSkip (hybrid desc) f →
      f.msgKey (hybrid desc) desc ∉ (w.st f.sender.peer).base.skipped.lost → f.pt.length ≤ cap →
      (gyHybridDrDecryptAssoc desc rnd cap f.wire ad (w.st f.sender.peer)).1.1 = .ok f.pt := by
  intro w hwrap
  have hseeds := I.seeds_of_expandSecrets hsec
  have hne : spk.curve.pk ≠ kp.pk := by
    have := (List.nodup_append.mp hfair.fresh).1
    simpa using this
  obtain ⟨lv₀, hstart⟩ := sync_start_hybrid hhyb hidk hspk hspkKem hrnd₀ hne ha hb
  obtain ⟨lv, lvl, pos, hy⟩ := InStep.run hid had hseeds ⟨lv₀, _, _, hstart⟩ es hfair hwrap
  refine ⟨hy.nodup, fun i f hi hnew => hy.ratchetsWith hi hnew, ?_⟩
  intro i f rnd kp' cap hi hrnd hnot hskip hlost hcap
  exact hy.decrypts hid had hseeds hwrap hi hrnd hnot hskip hlost hcap

end Runs

/-! ## Symbolic runs -/

/-- The signed prekey of the symbolic responder. -/
def symSpk : HybridKeypair Sym := ⟨Sym.curvePair 0, Sym.kemEk 0, Sym.kemDk 0⟩

/-- The initiator of a symbolic hybrid session; its identity KEM key is number two. -/
def symHybridAlice : HybridState Sym :=
  (gyHybridDrInitAlice (symSuite true) 1 (symSecrets true) symSpk.curve.pk symSpk.mlkemEk 1
    (Sym.kemDk 2) (symRand 1)).toOption.getD HybridState.zero

/-- The responder of a symbolic hybrid session. -/
def symHybridBob : HybridState Sym :=
  (gyHybridDrInitBob (symSuite true) 1 (symSecrets true) symSpk 1
    (Sym.kemEk 2)).toOption.getD HybridState.zero

/-- Symbolic KEM pairs are genuine. -/
theorem genuineKem_sym (n : Nat) : (symIdeal true).genuineKem (Sym.kemEk n) (Sym.kemDk n) :=
  ⟨n, rfl, rfl⟩

/-- So is the KEM pair of the signed prekey. -/
theorem genuineKem_symSpk : (symIdeal true).genuineKem symSpk.mlkemEk symSpk.mlkemDk := by
  simp only [symSpk]
  exact genuineKem_sym 0

/-- And its curve pair. -/
theorem genuine_symSpk : (symIdeal true).genuine symSpk.curve := ⟨0, rfl⟩

theorem symSpk_pk : symSpk.curve.pk = (Sym.curvePair 0).pk := rfl

/-- Symbolic draws are of the kind the run asks for. -/
theorem hybridRandOk_sym (n : Nat) :
    HybridRandOk (symIdeal true) (symRand n) (Sym.curvePair n) :=
  ⟨rfl, ⟨n, rfl⟩, _, _, rfl, genuineKem_sym n⟩

/-- The initiator's state. -/
theorem gyHybridDrInitAlice_sym : gyHybridDrInitAlice (symSuite true) 1 (symSecrets true)
    symSpk.curve.pk symSpk.mlkemEk 1 (Sym.kemDk 2) (symRand 1) = .ok symHybridAlice := by
  obtain ⟨a, ha⟩ := gyHybridDrInitAlice_ok rfl 1 (symSecrets true) genuine_symSpk
    genuineKem_symSpk (by decide : ¬ (1 : UInt32) < 1) (Sym.kemDk 2) (hybridRandOk_sym 1)
  rw [symHybridAlice, ha]
  rfl

/-- The responder's state. -/
theorem gyHybridDrInitBob_sym : gyHybridDrInitBob (symSuite true) 1 (symSecrets true) symSpk 1
    (Sym.kemEk 2) = .ok symHybridBob := by
  have hok : ∃ b, gyHybridDrInitBob (symSuite true) 1 (symSecrets true) symSpk 1
      (Sym.kemEk 2) = .ok b := ⟨_, if_neg (by decide)⟩
  obtain ⟨b, hb⟩ := hok
  rw [symHybridBob, hb]
  rfl

/-- The initiator begins without skipped keys. -/
theorem symHybridAlice_skipped : symHybridAlice.base.skipped = SkipStore.empty := by
  have ha := gyHybridDrInitAlice_sym
  rw [gyHybridDrInitAlice] at ha
  split_ifs at ha
  obtain ⟨kp, -, ha⟩ := Except.bind_eq_ok_iff.1 ha
  obtain ⟨kem, -, ha⟩ := Except.bind_eq_ok_iff.1 ha
  obtain ⟨ct, -, ha⟩ := Except.bind_eq_ok_iff.1 ha
  obtain ⟨dh, -, ha⟩ := Except.bind_eq_ok_iff.1 ha
  obtain ⟨hdh, -, ha⟩ := Except.bind_eq_ok_iff.1 ha
  obtain ⟨r, -, ha⟩ := Except.bind_eq_ok_iff.1 ha
  rw [← Except.ok.inj ha]
  rfl

/-- So does the responder. -/
theorem symHybridBob_skipped : symHybridBob.base.skipped = SkipStore.empty := by
  have hb := gyHybridDrInitBob_sym
  rw [gyHybridDrInitBob, if_neg (by decide)] at hb
  rw [← Except.ok.inj hb]
  rfl

/-- A symbolic hybrid session starts in step. -/
theorem sync_hybrid_sym : ∃ lv, Sync (hybridSpec (symIdeal true) rfl (genuineKem_sym 2)) 1 []
    (symSecrets true) (World.start symHybridAlice symHybridBob) symKeys lv Party.par
    fun _ _ => 0 := by
  have hne : symSpk.curve.pk ≠ (Sym.curvePair 1).pk := by
    rw [symSpk_pk]
    exact symRand_pk_ne (by decide)
  obtain ⟨lv, hy⟩ := sync_start_hybrid rfl (genuineKem_sym 2) genuine_symSpk genuineKem_symSpk
    (hybridRandOk_sym 1) hne gyHybridDrInitAlice_sym gyHybridDrInitBob_sym
  rw [symSpk_pk] at hy
  exact ⟨lv, hy⟩

/-- A buffer of 8192 bytes has room for an empty message. -/
theorem roomFor_hybrid : RoomFor (hybrid (symSuite true)) 1 ([] : Bytes Sym) 8192 := by
  show 2 + (16 + 2 + (4772 + 16)) + 0 + 16 ≤ 8192
  decide

/-- And for the reply. -/
theorem roomFor_hybrid_reply : RoomFor (hybrid (symSuite true)) 1 reply 8192 := by
  show 2 + (16 + 2 + (4772 + 16)) + 8 + 16 ≤ 8192
  decide

theorem hybrid_lost_eq_nil {w : World Sym (HybridState Sym)}
    (h : ∀ q, ((hybrid (symSuite true)).base (w.st q)).skipped.lost = []) (q : Party) :
    (w.st q).base.skipped.lost = [] := h q

/-- In a conversation the two messages that were skipped decrypt late, and so does the reply, which
opens a new chain and meets the KEM key it was made for. -/
theorem hybrid_ratchet_conversation :
    let w := (World.start symHybridAlice symHybridBob).run
      (hybrid (symSuite true)) (symSuite true) [] conversation
    w.accepted = [0, 3] ∧
      (∃ f : Sent Sym (HybridState Sym), w.sent[4]? = some f ∧ f.sender = .bob ∧
        RatchetsWith (symIdeal true) (hybridHeader (symSuite true) f.from_) f.from_
          (w.st f.sender.peer)) ∧
      ∀ i ∈ [1, 2, 4], ∃ f : Sent Sym (HybridState Sym), w.sent[i]? = some f ∧
        (gyHybridDrDecryptAssoc (symSuite true) (symRand 4) 8192 f.wire []
          (w.st f.sender.peer)).1.1 = .ok f.pt := by
  obtain ⟨lv, hy⟩ := sync_hybrid_sym
  obtain ⟨hwrap, hacc, hlen, ⟨f₄, hf₄, hs₄, -, hnew₄⟩, hkept, hready⟩ := conversation_ready
    (shape_hybrid _) hy symHybridAlice_skipped symHybridBob_skipped roomFor_hybrid
    roomFor_hybrid_reply (seeds_sym true) hybridRandOk_sym
  have hmain := hybrid_ratchet_synchronised (symIdeal true) rfl aeadUsable_sym
    (Nat.zero_le _) (expandSecrets_sym true) genuine_symSpk genuineKem_symSpk (genuineKem_sym 2)
    (hybridRandOk_sym 1) gyHybridDrInitAlice_sym gyHybridDrInitBob_sym conversation
    (by rw [symSpk_pk]; exact fair_conversation fun n => ⟨_, hybridRandOk_sym n⟩) hwrap
  generalize (World.start symHybridAlice symHybridBob).run
    (hybrid (symSuite true)) (symSuite true) [] conversation = w at *
  refine ⟨hacc, ⟨f₄, hf₄, hs₄, hmain.2.1 4 f₄ hf₄ hnew₄⟩, fun i hi => ?_⟩
  have hi' : i < 5 ∧ i ∉ w.accepted := by
    rw [hacc]
    simp only [List.mem_cons, List.not_mem_nil, or_false] at hi
    rcases hi with rfl | rfl | rfl
    all_goals decide
  obtain ⟨f, hf⟩ : ∃ f, w.sent[i]? = some f :=
    ⟨_, List.getElem?_eq_getElem (by rw [hlen]; exact hi'.1)⟩
  obtain ⟨hskip, hcap⟩ := hready i f hf
  have hlost := hybrid_lost_eq_nil hkept f.sender.peer
  exact ⟨f, hf, hmain.2.2 i f (symRand 4) _ 8192 hf (hybridRandOk_sym 4) hi'.2 hskip
    (by rw [hlost]; exact List.not_mem_nil) hcap⟩

/-- The last of four messages arrives first, with its tag overwritten: either receiver has stepped
its ratchet and skipped three keys on the staged copy when the AEAD refuses the payload, and is left
as it was. -/
theorem decrypt_noop_tampered :
    (let w := (World.start symAlice symBob).run (classical (symSuite false)) (symSuite false) []
        (List.replicate 4 (.send .alice 8192 [] (zeros 16)));
      (w.st .bob).haveCkr = false ∧
      ∃ (f : Sent Sym (DrState Sym)) (s₁ : DrState Sym) (e : GyErr), w.sent[3]? = some f ∧
        (classical (symSuite false)).Stages (symSuite false) (symRand 2)
          (withTag f.wire (zeros 16)) [] (w.st .bob) s₁ ∧ s₁.haveCkr = true ∧ s₁.nr = 3 ∧
        (gyDrDecryptAssoc (symSuite false) (symRand 2) 8192 (withTag f.wire (zeros 16)) []
          (w.st .bob)).1.1 = .error e ∧
        (gyDrDecryptAssoc (symSuite false) (symRand 2) 8192 (withTag f.wire (zeros 16)) []
          (w.st .bob)).2 = w.st .bob) ∧
    (let w := (World.start symHybridAlice symHybridBob).run
        (hybrid (symSuite true)) (symSuite true) []
        (List.replicate 4 (.send .alice 8192 [] (zeros 16)));
      (w.st .bob).base.haveCkr = false ∧
      ∃ (f : Sent Sym (HybridState Sym)) (s₁ : HybridState Sym) (e : GyErr), w.sent[3]? = some f ∧
        (hybrid (symSuite true)).Stages (symSuite true) (symRand 2)
          (withTag f.wire (zeros 16)) [] (w.st .bob) s₁ ∧
        s₁.base.haveCkr = true ∧ s₁.base.nr = 3 ∧
        (gyHybridDrDecryptAssoc (symSuite true) (symRand 2) 8192 (withTag f.wire (zeros 16)) []
          (w.st .bob)).1.1 = .error e ∧
        (gyHybridDrDecryptAssoc (symSuite true) (symRand 2) 8192 (withTag f.wire (zeros 16)) []
          (w.st .bob)).2 = w.st .bob) := by
  constructor
  · obtain ⟨lv, hy⟩ := sync_sym
    obtain ⟨hnone, f, s₁, e, hf, hstage, hckr, hnr, he⟩ := burst_tampered hy rfl roomFor_classical
      (seeds_sym false) classicalRandOk_sym
    exact ⟨hnone, f, s₁, e, hf, hstage, hckr, hnr, he,
      (decrypt_noop_of_error (symSuite false)).1 _ _ _ _ _ e he⟩
  · obtain ⟨lv, hy⟩ := sync_hybrid_sym
    obtain ⟨hnone, f, s₁, e, hf, hstage, hckr, hnr, he⟩ := burst_tampered hy symHybridBob_skipped
      roomFor_hybrid (seeds_sym true) hybridRandOk_sym
    exact ⟨hnone, f, s₁, e, hf, hstage, hckr, hnr, he,
      (decrypt_noop_of_error (symSuite true)).2 _ _ _ _ _ e he⟩

/-- The run that wraps the counter, for the hybrid engine. -/
theorem hybrid_wrapRun {m M : Nat} (hm : 0 < m) (hlt : m < 2 ^ 32) (hmM : m + 1 = M)
    (hM : UInt32.ofNat M = 0) (rnd : RatchetRand Sym) :
    Fair (fun rnd => ∃ kp, HybridRandOk (symIdeal true) rnd kp) symKeys (wrapRun m) ∧
    let w := (World.start symHybridAlice symHybridBob).run
      (hybrid (symSuite true)) (symSuite true) []
      (wrapRun m)
    ∃ (f : Sent Sym (HybridState Sym)) (e : GyErr), w.sent[M]? = some f ∧ M ∉ w.accepted ∧
      w.WithinSkip (hybrid (symSuite true)) f ∧
      f.msgKey (hybrid (symSuite true)) (symSuite true) ∉
        (w.st f.sender.peer).base.skipped.lost ∧ f.pt.length ≤ 8192 ∧
      (gyHybridDrDecryptAssoc (symSuite true) rnd 8192 f.wire [] (w.st f.sender.peer)).1.1 =
        .error e := by
  obtain ⟨lv, hy⟩ := sync_hybrid_sym
  refine ⟨fair_wrapRun (fun n => ⟨_, hybridRandOk_sym n⟩) _, ?_⟩
  exact wrapRun_refused hy symHybridBob_skipped roomFor_hybrid (seeds_sym true) hybridRandOk_sym hm
    hlt hmM hM rnd

/-- Two things the skip bounds alone do not give: a message after the counter has wrapped is
refused, and so is a message whose key was pushed out of the store. -/
theorem hybrid_ratchet_refuses :
    (Fair (fun rnd => ∃ kp, HybridRandOk (symIdeal true) rnd kp) symKeys (wrapRun (2 ^ 32 - 1)) ∧
      let w := (World.start symHybridAlice symHybridBob).run
        (hybrid (symSuite true)) (symSuite true)
        [] (wrapRun (2 ^ 32 - 1))
      ∃ (f : Sent Sym (HybridState Sym)) (e : GyErr), w.sent[2 ^ 32]? = some f ∧
        2 ^ 32 ∉ w.accepted ∧ w.WithinSkip (hybrid (symSuite true)) f ∧
        f.msgKey (hybrid (symSuite true)) (symSuite true) ∉
          (w.st f.sender.peer).base.skipped.lost ∧ f.pt.length ≤ 8192 ∧
        (gyHybridDrDecryptAssoc (symSuite true) (symRand (2 ^ 32 + 1)) 8192 f.wire []
          (w.st f.sender.peer)).1.1 = .error e) ∧
    (Fair (fun rnd => ∃ kp, HybridRandOk (symIdeal true) rnd kp) symKeys evictRun ∧
      let w := (World.start symHybridAlice symHybridBob).run
        (hybrid (symSuite true)) (symSuite true)
        [] evictRun
      ∃ (i : Nat) (f : Sent Sym (HybridState Sym)) (e : GyErr), w.sent[i]? = some f ∧
        i ∉ w.accepted ∧ w.WithinSkip (hybrid (symSuite true)) f ∧ f.pt.length ≤ 8192 ∧
        (gyHybridDrDecryptAssoc (symSuite true) (symRand 4) 8192 f.wire []
          (w.st f.sender.peer)).1.1 = .error e) := by
  refine ⟨hybrid_wrapRun (by decide) (by decide) (by decide) (by decide) _,
    fair_evictRun fun n => ⟨_, hybridRandOk_sym n⟩, ?_⟩
  obtain ⟨lv, hy⟩ := sync_hybrid_sym
  exact evictRun_refused hy symHybridBob_skipped roomFor_hybrid (seeds_sym true) hybridRandOk_sym

end Geryon
