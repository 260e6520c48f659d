import Geryon.Ratchet.Double
import Geryon.Symbolic

/-!
# The hybrid Double Ratchet

`ratchet/hybrid_double_ratchet.c`: the classical ratchet with an ML-KEM shared secret mixed into
every root derivation, ML-KEM key refresh on an interval, and the responder's KEM confirmation on
its first sending chain.
-/

namespace Geryon

/-- `GY_HYBRID_AD_MAX`. -/
def hybridAdMax : Nat := 2 * 64 + 4

/-- `GY_HYBRID_ROLE_*`. -/
inductive HybridRole where
  | initiator | responder
  deriving DecidableEq, Repr

/-- `GY_HYBRID_PQ_*`. -/
inductive PqState where
  | classicalOnly | confirmSent | confirmed
  deriving DecidableEq, Repr

/-- `struct gy_hybrid_dr_state`. -/
structure HybridState (β : Type) where
  base : DrState β
  mlkemEk : Bytes β
  mlkemDk : Bytes β
  remoteEk : Bytes β
  kemCt : Bytes β
  mlkemCounter : UInt32
  mlkemInterval : UInt32
  haveRemoteEk : Bool
  haveKemCt : Bool
  sendEkPending : Bool
  role : HybridRole
  pqState : PqState
  idMlkemEk : Bytes β
  idMlkemDk : Bytes β
  confirmCt : Bytes β
  confirmPending : Bool
  sendConfirmPending : Bool
  haveConfirmCt : Bool
  haveIdDk : Bool

/-- A hybrid key pair (`struct gy_hybrid_keypair`): curve pair, encapsulation and decapsulation
keys. -/
structure HybridKeypair (β : Type) where
  curve : Keypair β
  mlkemEk : Bytes β
  mlkemDk : Bytes β

variable {β : Type} [Octet β]

/-- A zeroed hybrid state. -/
def HybridState.zero : HybridState β where
  base := DrState.zero
  mlkemEk := zeros kemEkMax
  mlkemDk := zeros 3168
  remoteEk := zeros kemEkMax
  kemCt := zeros kemCtMax
  mlkemCounter := 0
  mlkemInterval := 0
  haveRemoteEk := false
  haveKemCt := false
  sendEkPending := false
  role := .initiator
  pqState := .classicalOnly
  idMlkemEk := zeros kemEkMax
  idMlkemDk := zeros 3168
  confirmCt := zeros kemCtMax
  confirmPending := false
  sendConfirmPending := false
  haveConfirmCt := false
  haveIdDk := false

variable (desc : SuiteDesc β)

/-- `hybrid_combine`. -/
def hybridCombine (kemSs dh : Bytes β) : Except GyErr (Bytes β) :=
  desc.hash (kemSs ++ dh)

/-- `hybrid_combine3`: the confirmation secret outermost. -/
def hybridCombine3 (confirmSs kemSs dh : Bytes β) : Except GyErr (Bytes β) :=
  desc.hash (confirmSs ++ kemSs ++ dh)

/-- The combiner of a chain with or without a confirmation secret. -/
def hybridMix (confirmSs : Option (Bytes β)) (kemSs dh : Bytes β) : Except GyErr (Bytes β) :=
  match confirmSs with
  | none => hybridCombine desc kemSs dh
  | some cs => hybridCombine3 desc cs kemSs dh

/-! ## Initialisation -/

/-- `gy_hybrid_dr_init_alice`: `remoteSpk` is Bob's signed prekey (curve and ML-KEM parts),
`idMlkemDk` Alice's identity decapsulation key. -/
def gyHybridDrInitAlice (aeadId : UInt8) (secrets : DrSecrets β) (remotePk remoteEk : Bytes β)
    (mlkemInterval : UInt32) (idMlkemDk : Bytes β) (rnd : RatchetRand β) :
    Except GyErr (HybridState β) :=
  -- the suite must have a KEM, and an interval of zero would ask for a KEM step each time
  if !desc.isHybrid || mlkemInterval < 1 then .error .arg
  else do
    -- both ratchet pairs are drawn before the first encapsulation, in this order
    let kp ← rnd.curve
    let (ek, dk) ← rnd.kem
    let (ct, kemSs) ← desc.kemEncap remoteEk rnd.coins
    let dh ← desc.dh kp.sk remotePk
    let hdh ← hybridCombine desc kemSs dh
    let r ← gyDrcKdfRk desc secrets.skDr hdh
    return { HybridState.zero with
      base := { aliceStart aeadId secrets remotePk with
        dhs := kp, rk := r.rk, cks := r.ck, nhks := r.nhk, haveCks := true, haveNhks := true }
      mlkemEk := ek
      mlkemDk := dk
      remoteEk := remoteEk
      haveRemoteEk := true
      kemCt := ct
      haveKemCt := true
      sendEkPending := true
      mlkemInterval := mlkemInterval
      role := .initiator
      pqState := .classicalOnly
      idMlkemDk := idMlkemDk
      haveIdDk := true }

/-- `gy_hybrid_dr_init_bob`. -/
def gyHybridDrInitBob (aeadId : UInt8) (secrets : DrSecrets β) (spk : HybridKeypair β)
    (mlkemInterval : UInt32) (initiatorIdEk : Bytes β) : Except GyErr (HybridState β) :=
  if !desc.isHybrid || mlkemInterval < 1 then .error .arg
  else
    .ok { HybridState.zero with
      base := gyDrInitBob aeadId secrets spk.curve
      mlkemEk := spk.mlkemEk
      mlkemDk := spk.mlkemDk
      mlkemInterval := mlkemInterval
      -- a counter at the interval makes the first ratchet step draw a fresh KEM pair
      mlkemCounter := mlkemInterval
      role := .responder
      pqState := .classicalOnly
      idMlkemEk := initiatorIdEk
      -- his first reply must confirm the initiator's identity KEM key
      confirmPending := true }

/-! ## The ratchet step -/

/-- Run a command on the classical part. -/
def onBase {α : Type} (c : Cmd GyErr (DrState β) α) : Cmd GyErr (HybridState β) α :=
  Cmd.zoom HybridState.base (fun b st => { st with base := b }) c

/-- Whether a received header must carry the confirmation, or why it is refused: the responder never
receives it, the initiator requires it on the first epoch and refuses it later. -/
def recvConfirm (st : HybridState β) (h : DrHybridHeader β) : Except GyErr Bool :=
  match st.role with
  | .responder => if confirmPresent h.flags then .error .state else .ok false
  | .initiator =>
    if st.pqState = .classicalOnly then
      if confirmPresent h.flags then .ok true else .error .state
    else if confirmPresent h.flags then .error .state
    else .ok false

/-- Step 2: cache the remote encapsulation key, or require a cached one. -/
def cacheRemoteEk (h : DrHybridHeader β) : Cmd GyErr (HybridState β) Unit := do
  let st ← Cmd.get
  if ekPresent h.flags then
    Cmd.modify fun st => { st with remoteEk := h.mlkemEk, haveRemoteEk := true }
  else if !st.haveRemoteEk then Cmd.fail .state

/-- Step 3: the receiving chain. Decapsulation uses the own key as it stands, before any refresh. -/
def hybridRecvStep (confirm : Bool) (h : DrHybridHeader β) : Cmd GyErr (HybridState β) Unit := do
  onBase rotateHkr
  let st ← Cmd.get
  let kemSs ← Cmd.lift (desc.kemDecap h.kemCt st.mlkemDk)
  let dh ← onBase (ratchetDh desc)
  let cs ← if confirm then
      some <$> Cmd.lift (desc.kemDecap h.confirmCt st.idMlkemDk)
    else pure none
  let hdh ← Cmd.lift (hybridMix desc cs kemSs dh)
  onBase (recvRoot desc hdh)

/-- Step 4: refresh the ML-KEM pair on its interval and the curve pair always; says whether the
ML-KEM pair was refreshed. -/
def hybridRefresh (rnd : RatchetRand β) : Cmd GyErr (HybridState β) Bool := do
  Cmd.modify fun st => { st with mlkemCounter := st.mlkemCounter + 1 }
  let st ← Cmd.get
  -- the KEM pair is renewed only every `mlkemInterval` steps, the curve pair in each
  let regen ← if st.mlkemCounter ≥ st.mlkemInterval then do
      let (ek, dk) ← Cmd.lift rnd.kem
      Cmd.modify fun st => { st with mlkemEk := ek, mlkemDk := dk, mlkemCounter := 0 }
      pure true
    else pure false
  let kp ← Cmd.lift rnd.curve
  Cmd.modify fun st => { st with base := { st.base with dhs := kp } }
  return regen

/-- Step 5: the sending chain, with a fresh encapsulation to the cached remote key and, on the
responder's first sending chain, one to the initiator's identity key. -/
def hybridSendStep (rnd : RatchetRand β) : Cmd GyErr (HybridState β) Bool := do
  onBase rotateHks
  let st ← Cmd.get
  let (ct, kemSs) ← Cmd.lift (desc.kemEncap st.remoteEk rnd.coins)
  Cmd.modify fun st => { st with kemCt := ct, haveKemCt := true }
  -- a pending confirmation is encapsulated too and mixed into the root key
  let cs ← if st.confirmPending then do
      let (cct, cs) ← Cmd.lift (desc.kemEncap st.idMlkemEk rnd.confirmCoins)
      Cmd.modify fun st => { st with confirmCt := cct, haveConfirmCt := true }
      pure (some cs)
    else pure none
  let dh ← onBase (ratchetDh desc)
  let hdh ← Cmd.lift (hybridMix desc cs kemSs dh)
  onBase (sendRoot desc hdh)
  return st.confirmPending

/-- The transitions of the confirmation state at the end of a ratchet step. -/
def hybridTransition (regen sendConfirm recvConfirm wasConfirmSent : Bool) :
    Cmd GyErr (HybridState β) Unit := do
  Cmd.modify fun st => { st with sendEkPending := regen }
  Cmd.modify fun st =>
    -- the confirmation just made goes out with every header of this chain
    if sendConfirm then
      { st with sendConfirmPending := true, confirmPending := false, pqState := .confirmSent }
    else { st with sendConfirmPending := false }
  Cmd.modify fun st =>
    -- the identity KEM key has done its work and is wiped
    if recvConfirm then
      { st with pqState := .confirmed, idMlkemDk := zeros 3168, haveIdDk := false }
    else st
  Cmd.modify fun st =>
    -- the initiator answered on a chain that has the confirmation in it
    if st.role = .responder ∧ wasConfirmSent then { st with pqState := .confirmed } else st

/-- `hybrid_dh_ratchet`. -/
def hybridDhRatchet (rnd : RatchetRand β) (h : DrHybridHeader β) :
    Cmd GyErr (HybridState β) Unit := do
  let st ← Cmd.get
  -- read before the step changes it
  let wasConfirmSent := decide (st.pqState = .confirmSent)
  let confirm ← Cmd.lift (recvConfirm st h)
  onBase (startEpoch h.ratchetPk)
  cacheRemoteEk h
  hybridRecvStep desc confirm h
  let regen ← hybridRefresh rnd
  let sendConfirm ← hybridSendStep desc rnd
  hybridTransition regen sendConfirm confirm wasConfirmSent

/-! ## The engine -/

/-- The flag word `gy_hybrid_dr_encrypt` builds. -/
def hybridFlags (st : HybridState β) : UInt32 :=
  headerFlags desc st.sendEkPending st.sendConfirmPending

/-- The header `gy_hybrid_dr_encrypt` builds; an absent field stays zeroed. -/
def hybridHeader (st : HybridState β) : DrHybridHeader β where
  flags := hybridFlags desc st
  ratchetPk := st.base.dhs.pk
  kemCt := st.kemCt
  pn := st.base.pn
  n := st.base.ns
  mlkemEk := if st.sendEkPending then st.mlkemEk else zeros desc.kemPkLen
  confirmCt := if st.sendConfirmPending then st.confirmCt else zeros desc.kemCtLen

/-- `enc_header_len_ok`: one of the four header lengths plus the tag. -/
def encHeaderLenOk (ehl taglen : Nat) : Bool :=
  ehl == gyDrHybridHeaderLen desc false false + taglen ||
    ehl == gyDrHybridHeaderLen desc true false + taglen ||
    ehl == gyDrHybridHeaderLen desc false true + taglen ||
    ehl == gyDrHybridHeaderLen desc true true + taglen

/-- Decode a hybrid header and require that it fills the decrypted bytes. -/
def hybridDecode (b : Bytes β) : Except GyErr (DrHybridHeader β) := do
  let (h, hdrlen) ← gyDrHybridHeaderDecode desc b
  if hdrlen ≠ b.length then .error .arg else .ok h

/-- The hybrid engine. -/
def hybrid : Engine β (HybridState β) (DrHybridHeader β) where
  base := HybridState.base
  withBase b st := { st with base := b }
  base_withBase _ _ := rfl
  withBase_base _ := rfl
  withBase_withBase _ _ _ := rfl
  adMax := hybridAdMax
  headerMax := drHybridHeaderMax
  encHeaderLenOk := encHeaderLenOk desc
  canSend := HybridState.haveKemCt
  header := hybridHeader desc
  encode := gyDrHybridHeaderEncode desc
  decode := hybridDecode desc
  ratchetPk := DrHybridHeader.ratchetPk
  pn := DrHybridHeader.pn
  n := DrHybridHeader.n
  -- only the responder confirms, so a confirmation sent to him is refused
  headerCheck st h :=
    if confirmPresent h.flags ∧ st.role = .responder then .error .state else .ok ()
  dhRatchet := hybridDhRatchet desc

variable [DecidableEq β] [Sodium β]

/-- `gy_hybrid_dr_encrypt`. -/
def gyHybridDrEncrypt (cap : Nat) (pt ad : Bytes β) (salt : Except GyErr (Bytes β)) :
    Cmd GyErr (HybridState β) (Bytes β) :=
  (hybrid desc).encrypt desc cap pt ad salt

/-- `gy_hybrid_dr_decrypt_assoc`. -/
def gyHybridDrDecryptAssoc (rnd : RatchetRand β) (cap : Nat) (msg ad : Bytes β)
    (st : HybridState β) : (Except GyErr (Bytes β) × Bool) × HybridState β :=
  (hybrid desc).decryptAssoc desc rnd cap msg ad st

/-- A message that either engine does not accept is a complete no-op: whatever byte string is
offered and whatever state it is offered in, a return code other than success leaves root, chain
and header keys, counters, KEM keys, confirmation state, skipped keys and the aging clock as they
were. -/
theorem decrypt_noop_of_error :
    (∀ (rnd : RatchetRand β) (cap : Nat) (msg ad : Bytes β) (st : DrState β) (e : GyErr),
      (gyDrDecryptAssoc desc rnd cap msg ad st).1.1 = .error e →
        (gyDrDecryptAssoc desc rnd cap msg ad st).2 = st) ∧
    (∀ (rnd : RatchetRand β) (cap : Nat) (msg ad : Bytes β) (st : HybridState β) (e : GyErr),
      (gyHybridDrDecryptAssoc desc rnd cap msg ad st).1.1 = .error e →
        (gyHybridDrDecryptAssoc desc rnd cap msg ad st).2 = st) :=
  ⟨fun _ _ _ _ _ _ h => Engine.decryptAssoc_error h,
    fun _ _ _ _ _ _ h => Engine.decryptAssoc_error h⟩

end Geryon
